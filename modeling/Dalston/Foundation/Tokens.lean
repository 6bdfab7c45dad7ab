import Mathlib

/-!
# Tokens of a text

A text is a list of characters, some of which separate. Its tokens are the longest
parts without a separator, and a text is trimmed when it has no separator at either
end. Joining tokens by one separator and splitting again gives the tokens back.
-/

namespace Dalston.Foundation

variable {A : Type} (isSep : A → Bool)

/-- The parts of a text between its separators that are not empty. -/
def tokens (s : List A) : List (List A) := (s.splitOnP isSep).filter fun t => !t.isEmpty

/-- Cut the separators off both ends. -/
def trim (s : List A) : List A := ((s.dropWhile isSep).reverse.dropWhile isSep).reverse

/-- Put a separator between each two texts. -/
def joinWith (sep : A) (texts : List (List A)) : List A := [sep].intercalate texts

/-- A part that is not empty and has no separator. -/
def IsToken (t : List A) : Prop := t ≠ [] ∧ ∀ c ∈ t, isSep c = false

/-- Neither the first nor the last character separates. -/
def Trimmed (s : List A) : Prop :=
  (∀ c ∈ s.head?, isSep c = false) ∧ ∀ c ∈ s.getLast?, isSep c = false

@[simp] theorem joinWith_nil (sep : A) : joinWith sep [] = [] := rfl

@[simp] theorem joinWith_singleton (sep : A) (t : List A) : joinWith sep [t] = t := by
  simp [joinWith]

theorem joinWith_cons (sep : A) (t u : List A) (rest : List (List A)) :
    joinWith sep (t :: u :: rest) = t ++ sep :: joinWith sep (u :: rest) := by
  simp [joinWith, List.intercalate]

theorem joinWith_append (sep : A) {ts us : List (List A)} (hts : ts ≠ []) (hus : us ≠ []) :
    joinWith sep (ts ++ us) = joinWith sep ts ++ sep :: joinWith sep us := by
  induction ts with
  | nil => exact absurd rfl hts
  | cons t rest ih =>
      cases rest with
      | nil =>
          obtain ⟨u, us, rfl⟩ := List.exists_cons_of_ne_nil hus
          rw [joinWith_singleton]
          exact joinWith_cons sep t u us
      | cons t' rest =>
          have htail := ih (by simp)
          rw [List.cons_append] at htail
          rw [List.cons_append, List.cons_append, joinWith_cons, htail, joinWith_cons]
          simp

theorem mem_joinWith {sep c : A} {ts : List (List A)} (h : c ∈ joinWith sep ts) :
    c = sep ∨ ∃ t ∈ ts, c ∈ t := by
  induction ts with
  | nil => exact absurd h List.not_mem_nil
  | cons t rest ih =>
      cases rest with
      | nil => exact Or.inr ⟨t, List.mem_cons_self, by simpa using h⟩
      | cons u rest =>
          rw [joinWith_cons] at h
          rcases List.mem_append.mp h with h | h
          · exact Or.inr ⟨t, List.mem_cons_self, h⟩
          · rcases List.mem_cons.mp h with h | h
            · exact Or.inl h
            · refine (ih h).imp_right ?_
              rintro ⟨v, hv, hc⟩
              exact ⟨v, List.mem_cons_of_mem _ hv, hc⟩

theorem joinWith_ne_nil (sep : A) {ts : List (List A)} (hts : ts ≠ []) (h : ∀ t ∈ ts, t ≠ []) :
    joinWith sep ts ≠ [] := by
  obtain ⟨t, rest, rfl⟩ := List.exists_cons_of_ne_nil hts
  cases rest with
  | nil => simpa using h t List.mem_cons_self
  | cons u rest => simp [joinWith_cons]

section Tokens

variable {isSep}

theorem not_sep_of_mem_splitOnP {s t : List A} (h : t ∈ s.splitOnP isSep) :
    ∀ c ∈ t, isSep c = false := by
  induction s generalizing t with
  | nil =>
      simp only [List.splitOnP_nil, List.mem_singleton] at h
      simp [h]
  | cons a s ih =>
      rw [List.splitOnP_cons_eq_if_modifyHead] at h
      split at h
      · rcases List.mem_cons.mp h with rfl | h
        · simp
        · exact ih h
      · rename_i hsep
        obtain ⟨u, us, hus⟩ := List.exists_cons_of_ne_nil (List.splitOnP_ne_nil isSep s)
        rw [hus, List.modifyHead_cons] at h
        rcases List.mem_cons.mp h with rfl | h
        · intro c hc
          rcases List.mem_cons.mp hc with rfl | hc
          · simpa using hsep
          · exact ih (by rw [hus]; exact List.mem_cons_self) c hc
        · exact ih (by rw [hus]; exact List.mem_cons_of_mem _ h)

theorem mem_tokens {s t : List A} (h : t ∈ tokens isSep s) : IsToken isSep t := by
  obtain ⟨hmem, hne⟩ := List.mem_filter.mp h
  exact ⟨by simpa using hne, not_sep_of_mem_splitOnP hmem⟩

@[simp] theorem tokens_nil : tokens isSep ([] : List A) = [] := by
  simp [tokens]

theorem tokens_append_sep {t : List A} (ht : IsToken isSep t) {sep : A} (hsep : isSep sep = true)
    (rest : List A) : tokens isSep (t ++ sep :: rest) = t :: tokens isSep rest := by
  have hfirst := List.splitOnP_append_cons_of_forall_mem ht.2 sep hsep rest
  rw [tokens, hfirst, List.filter_cons_of_pos (by simpa using ht.1)]
  rfl

/-- A text is cut at a separator wherever it stands. -/
theorem tokens_append_cons (s rest : List A) {sep : A} (hsep : isSep sep = true) :
    tokens isSep (s ++ sep :: rest) = tokens isSep s ++ tokens isSep rest := by
  rw [tokens, List.splitOnP_append_cons s rest hsep, List.filter_append]
  rfl

theorem tokens_token {t : List A} (ht : IsToken isSep t) : tokens isSep t = [t] := by
  have hsingle := List.splitOnP_eq_singleton ht.2
  rw [tokens, hsingle, List.filter_cons_of_pos (by simpa using ht.1)]
  rfl

@[simp] theorem tokens_cons_sep {a : A} (ha : isSep a = true) (s : List A) :
    tokens isSep (a :: s) = tokens isSep s := by
  simpa using tokens_append_cons [] s ha

/-- A character in front of another one that does not separate lengthens its token. -/
theorem tokens_cons_cons {a b : A} (ha : isSep a = false) (hb : isSep b = false) (s : List A) :
    ∃ t rest, tokens isSep (b :: s) = t :: rest ∧
      tokens isSep (a :: b :: s) = (a :: t) :: rest := by
  obtain ⟨u, us, hus⟩ := List.exists_cons_of_ne_nil (List.splitOnP_ne_nil isSep s)
  refine ⟨b :: u, us.filter fun t => !t.isEmpty, ?_, ?_⟩
  · simp [tokens, List.splitOnP_cons_eq_if_modifyHead, hb, hus]
  · simp [tokens, List.splitOnP_cons_eq_if_modifyHead, ha, hb, hus]

/-- A character in front of a separator is a token of its own. -/
theorem tokens_cons_of_head {a : A} (ha : isSep a = false) {s : List A}
    (hs : ∀ b ∈ s.head?, isSep b = true) : tokens isSep (a :: s) = [a] :: tokens isSep s := by
  have htoken : IsToken isSep [a] := ⟨by simp, by simpa using ha⟩
  cases s with
  | nil => exact tokens_token htoken
  | cons b s =>
      have hb := hs b rfl
      calc tokens isSep (a :: b :: s)
          = [a] :: tokens isSep s := tokens_append_sep htoken hb s
        _ = [a] :: tokens isSep (b :: s) := by rw [tokens_cons_sep hb]

/-- Joined tokens are found again. -/
theorem tokens_joinWith {sep : A} (hsep : isSep sep = true) {ts : List (List A)}
    (hts : ∀ t ∈ ts, IsToken isSep t) : tokens isSep (joinWith sep ts) = ts := by
  induction ts with
  | nil => simp
  | cons t rest ih =>
      have ht := hts t List.mem_cons_self
      have hrest := ih fun u hu => hts u (List.mem_cons_of_mem _ hu)
      cases rest with
      | nil => rw [joinWith_singleton, tokens_token ht]
      | cons u rest => rw [joinWith_cons, tokens_append_sep ht hsep, hrest]

/-- A cut between two texts stands inside a token. -/
def CutsToken (isSep : A → Bool) (s t : List A) : Prop :=
  (∃ a ∈ s.getLast?, isSep a = false) ∧ ∃ b ∈ t.head?, isSep b = false

/-- A cut at a separator leaves the tokens whole. -/
theorem tokens_append_of_not_cutsToken {s t : List A} (h : ¬ CutsToken isSep s t) :
    tokens isSep (s ++ t) = tokens isSep s ++ tokens isSep t := by
  induction s with
  | nil => simp
  | cons a s ih =>
      cases ha : isSep a with
      | true =>
          rw [List.cons_append, tokens_cons_sep ha, tokens_cons_sep ha]
          refine ih fun hcut => h ⟨?_, hcut.2⟩
          obtain ⟨c, hc, hfree⟩ := hcut.1
          exact ⟨c, by rw [List.getLast?_cons, Option.mem_def.mp hc]; rfl, hfree⟩
      | false =>
          cases s with
          | nil =>
              have ht : ∀ b ∈ t.head?, isSep b = true := by
                intro b hb
                by_contra hfree
                exact h ⟨⟨a, rfl, ha⟩, b, hb, by simpa using hfree⟩
              rw [List.singleton_append, tokens_cons_of_head ha ht,
                tokens_cons_of_head ha (s := []) (by simp)]
              simp
          | cons b s =>
              have hrest := ih fun hcut => h ⟨by simpa using hcut.1, hcut.2⟩
              cases hb : isSep b with
              | true =>
                  rw [List.cons_append, tokens_cons_of_head ha (by simpa using hb),
                    tokens_cons_of_head ha (by simpa using hb), hrest, List.cons_append]
              | false =>
                  obtain ⟨u, us, hus, husa⟩ := tokens_cons_cons ha hb s
                  obtain ⟨v, vs, hvs, hvsa⟩ := tokens_cons_cons ha hb (s ++ t)
                  rw [List.cons_append, hus, hvs, List.cons_append] at hrest
                  obtain ⟨rfl, rfl⟩ := List.cons.inj hrest
                  rw [List.cons_append, List.cons_append, husa, hvsa, List.cons_append]

/-- A cut inside a token makes two of it. -/
theorem length_tokens_of_cutsToken {s t : List A} (h : CutsToken isSep s t) :
    (tokens isSep s).length + (tokens isSep t).length = (tokens isSep (s ++ t)).length + 1 := by
  obtain ⟨⟨c, hc, hcfree⟩, ⟨d, hd, hdfree⟩⟩ := h
  obtain ⟨t, rfl⟩ : ∃ t', t = d :: t' := by
    cases t with
    | nil => simp at hd
    | cons d' t => exact ⟨t, by simpa using hd⟩
  clear hd
  induction s with
  | nil => simp at hc
  | cons a s ih =>
      cases s with
      | nil =>
          obtain rfl : a = c := by simpa using hc
          obtain ⟨u, us, hus, husa⟩ := tokens_cons_cons hcfree hdfree t
          rw [List.singleton_append, husa, hus, tokens_cons_of_head hcfree (s := []) (by simp)]
          simp
          omega
      | cons b s =>
          have hrest := ih (by simpa using hc)
          cases ha : isSep a with
          | true =>
              rw [List.cons_append, tokens_cons_sep ha, tokens_cons_sep ha]
              exact hrest
          | false =>
              cases hb : isSep b with
              | true =>
                  rw [List.cons_append, tokens_cons_of_head ha (by simpa using hb),
                    tokens_cons_of_head ha (by simpa using hb)]
                  simp only [List.length_cons] at hrest ⊢
                  omega
              | false =>
                  obtain ⟨u, us, hus, husa⟩ := tokens_cons_cons ha hb s
                  obtain ⟨v, vs, hvs, hvsa⟩ := tokens_cons_cons ha hb (s ++ d :: t)
                  rw [List.cons_append, hus, hvs] at hrest
                  rw [List.cons_append, List.cons_append, husa, hvsa]
                  simpa using hrest

/-- Only whether the next character separates matters to the token of a character. -/
theorem tokens_cons_congr (a : A) {s s' : List A} (h : tokens isSep s = tokens isSep s')
    (hhead : (∀ b ∈ s.head?, isSep b = true) ↔ ∀ b ∈ s'.head?, isSep b = true) :
    tokens isSep (a :: s) = tokens isSep (a :: s') := by
  cases ha : isSep a with
  | true => rw [tokens_cons_sep ha, tokens_cons_sep ha, h]
  | false =>
      by_cases hsep : ∀ b ∈ s.head?, isSep b = true
      · rw [tokens_cons_of_head ha hsep, tokens_cons_of_head ha (hhead.mp hsep), h]
      · have hsep' := mt hhead.mpr hsep
        cases s with
        | nil => simp at hsep
        | cons b s =>
            cases s' with
            | nil => simp at hsep'
            | cons b' s' =>
                obtain ⟨u, us, hus, husa⟩ := tokens_cons_cons ha (by simpa using hsep) s
                obtain ⟨v, vs, hvs, hvsa⟩ := tokens_cons_cons ha (by simpa using hsep') s'
                rw [hus, hvs] at h
                obtain ⟨rfl, rfl⟩ := List.cons.inj h
                rw [husa, hvsa]

theorem tokens_eq_nil {s : List A} (h : ∀ c ∈ s, isSep c = true) : tokens isSep s = [] := by
  induction s with
  | nil => exact tokens_nil
  | cons c s ih =>
      rw [tokens_cons_sep (h c List.mem_cons_self)]
      exact ih fun d hd => h d (List.mem_cons_of_mem _ hd)

theorem length_tokens_flatten_le (texts : List (List A)) :
    (tokens isSep texts.flatten).length ≤ (texts.flatMap (tokens isSep)).length := by
  induction texts with
  | nil => simp
  | cons t rest ih =>
      rw [List.flatten_cons, List.flatMap_cons, List.length_append]
      by_cases hcut : CutsToken isSep t rest.flatten
      · have hlen := length_tokens_of_cutsToken hcut
        omega
      · rw [tokens_append_of_not_cutsToken hcut, List.length_append]
        omega

/-- Texts put together keep their tokens exactly when no cut between them is inside a token. -/
theorem tokens_flatten_iff {texts : List (List A)} :
    tokens isSep texts.flatten = texts.flatMap (tokens isSep) ↔
      ∀ before after, texts = before ++ after → ¬ CutsToken isSep before.flatten after.flatten := by
  constructor
  · rintro h before after rfl hcut
    have hlen := length_tokens_of_cutsToken hcut
    rw [← List.flatten_append, h, List.flatMap_append, List.length_append] at hlen
    have hbefore : _ ≤ (before.flatMap (tokens isSep)).length := length_tokens_flatten_le before
    have hafter : _ ≤ (after.flatMap (tokens isSep)).length := length_tokens_flatten_le after
    omega
  · intro h
    induction texts with
    | nil => simp
    | cons t rest ih =>
        have hfirst := h [t] rest rfl
        rw [List.flatten_singleton] at hfirst
        rw [List.flatten_cons, List.flatMap_cons, tokens_append_of_not_cutsToken hfirst, ih]
        rintro before after rfl ⟨⟨c, hc, hfree⟩, hafter⟩
        refine h (t :: before) after rfl ⟨⟨c, ?_, hfree⟩, hafter⟩
        rw [List.flatten_cons, List.getLast?_append, Option.mem_def.mp hc]
        rfl

end Tokens

section Trim

variable {isSep}

theorem head?_dropWhile (s : List A) : ∀ c ∈ (s.dropWhile isSep).head?, isSep c = false := by
  intro c hc
  have h := List.head?_dropWhile_not isSep s
  rw [Option.mem_def.mp hc] at h
  simpa using h

theorem trim_eq_self {s : List A} (h : Trimmed isSep s) : trim isSep s = s := by
  have hfront : s.dropWhile isSep = s := by
    cases s with
    | nil => rfl
    | cons c rest => exact List.dropWhile_cons_of_neg (by simpa using h.1 c rfl)
  have hback : s.reverse.dropWhile isSep = s.reverse := by
    cases hs : s.reverse with
    | nil => rfl
    | cons c rest =>
        have hlast : s.getLast? = some c := by
          rw [← List.head?_reverse, hs]
          rfl
        exact List.dropWhile_cons_of_neg (by simpa using h.2 c hlast)
  rw [trim, hfront, hback, List.reverse_reverse]

theorem trimmed_trim (s : List A) : Trimmed isSep (trim isSep s) := by
  constructor
  · intro c hc
    -- what is left of the second cut is a first part of what is left of the first
    have hprefix : trim isSep s <+: s.dropWhile isSep := by
      rw [trim, ← List.reverse_suffix, List.reverse_reverse]
      exact List.dropWhile_suffix isSep
    obtain ⟨rest, hrest⟩ := hprefix
    refine head?_dropWhile s c ?_
    rw [← hrest, List.head?_append, Option.mem_def.mp hc]
    rfl
  · intro c hc
    rw [trim, List.getLast?_reverse] at hc
    exact head?_dropWhile _ c hc

theorem Trimmed.append {s t : List A} (hs : Trimmed isSep s) (ht : Trimmed isSep t) (hne : s ≠ [])
    (hne' : t ≠ []) (sep : A) : Trimmed isSep (s ++ sep :: t) := by
  constructor
  · intro c hc
    rw [List.head?_append_of_ne_nil _ hne] at hc
    exact hs.1 c hc
  · intro c hc
    rw [List.getLast?_append_of_ne_nil _ (by simp)] at hc
    obtain ⟨u, rest, rfl⟩ := List.exists_cons_of_ne_nil hne'
    exact ht.2 c (by simpa using hc)

theorem tokens_dropWhile (s : List A) : tokens isSep (s.dropWhile isSep) = tokens isSep s := by
  induction s with
  | nil => rfl
  | cons c s ih =>
      cases hc : isSep c with
      | true => rw [List.dropWhile_cons_of_pos hc, ih, tokens_cons_sep hc]
      | false => rw [List.dropWhile_cons_of_neg (by simp [hc])]

theorem tokens_trim (s : List A) : tokens isSep (trim isSep s) = tokens isSep s := by
  let front := s.dropWhile isSep
  have hback : front = trim isSep s ++ (front.reverse.takeWhile isSep).reverse := by
    rw [trim, ← List.reverse_append, List.takeWhile_append_dropWhile, List.reverse_reverse]
  have hsep : ∀ c ∈ (front.reverse.takeWhile isSep).reverse, isSep c = true :=
    fun c hc => List.mem_takeWhile_imp (List.mem_reverse.mp hc)
  have hcut : ¬ CutsToken isSep (trim isSep s) (front.reverse.takeWhile isSep).reverse := by
    rintro ⟨-, c, hc, hfree⟩
    rw [hsep c (List.mem_of_mem_head? hc)] at hfree
    exact Bool.noConfusion hfree
  have hall := tokens_append_of_not_cutsToken hcut
  rw [← hback, tokens_dropWhile, tokens_eq_nil hsep, List.append_nil] at hall
  exact hall.symm

/-- Trimmed texts that are not empty stay trimmed when they are joined. -/
theorem trimmed_joinWith (sep : A) {ts : List (List A)}
    (h : ∀ t ∈ ts, t ≠ [] ∧ Trimmed isSep t) : Trimmed isSep (joinWith sep ts) := by
  induction ts with
  | nil => simp [Trimmed]
  | cons t rest ih =>
      obtain ⟨hne, ht⟩ := h t List.mem_cons_self
      have hrest : ∀ u ∈ rest, u ≠ [] ∧ Trimmed isSep u :=
        fun u hu => h u (List.mem_cons_of_mem _ hu)
      cases rest with
      | nil => simpa using ht
      | cons u rest =>
          rw [joinWith_cons]
          exact ht.append (ih hrest) hne
            (joinWith_ne_nil sep (by simp) fun v hv => (hrest v hv).1) sep

end Trim

end Dalston.Foundation
