import Dalston.Foundation.Table

/-!
# Keyset pagination

A listing answers one page of the rows of a table in the order of their positions: the first
ones beyond a cursor, and whether more follow. A client follows the cursors that the listing
returns. It sees every row once exactly if each cursor parts the rows of its page from the rest.
-/

namespace Dalston.Foundation

section Following

variable {R C : Type}

/-- Fetch pages and collect their rows until a page comes without a cursor. -/
def follow (fetch : Option C → Option (List R × Option C)) : Nat → Option C → Option (List R)
  | 0, _ => none
  | fuel + 1, cursor =>
      (fetch cursor).bind fun
        | (rows, none) => some rows
        | (rows, some next) => (follow fetch fuel (some next)).map (rows ++ ·)

/-- The same pages under other names for their cursors. -/
theorem follow_map {D : Type} {fetch : Option C → Option (List R × Option C)}
    {fetch' : Option D → Option (List R × Option D)} {name : C → D}
    (h : ∀ cursor, fetch' (cursor.map name) =
      (fetch cursor).map fun page => (page.1, page.2.map name)) (fuel : Nat) (cursor : Option C) :
    follow fetch' fuel (cursor.map name) = follow fetch fuel cursor := by
  induction fuel generalizing cursor with
  | zero => rfl
  | succ fuel ih =>
      rw [follow, follow, h]
      cases fetch cursor with
      | none => rfl
      | some page =>
          obtain ⟨rows, _ | next⟩ := page
          · rfl
          · exact congrArg (Option.map (rows ++ ·)) (ih (some next))

end Following

section Keyset

variable {R K P : Type} [LinearOrder P] {key : R → K}

/-- The first rows that a test finds beyond a position, and whether there are more. -/
def keysetPage (t : Table key) (p : R → Bool) (position : R → P) (beyond : P → R → Bool)
    (limit : Nat) (after : Option P) : List R × Bool :=
  let found := (t.select (fun r => p r && after.all (beyond · r)) position).take (limit + 1)
  (found.take limit, decide (limit < found.length))

/-- A page, and the position of its last row when more follow. -/
def keysetFetch (t : Table key) (p : R → Bool) (position : R → P) (beyond : P → R → Bool)
    (limit : Nat) (after : Option P) : List R × Option P :=
  let page := keysetPage t p position beyond limit after
  (page.1, if page.2 then page.1.getLast?.map position else none)

/-- The cursor of every page that has a next one lets the next row through, and not the last row of
the page. -/
def Parted (position : R → P) (beyond : P → R → Bool) (limit : Nat) (rows : List R) : Prop :=
  ∀ k, ∀ r ∈ rows[(k + 1) * limit - 1]?, ∀ x ∈ rows[(k + 1) * limit]?,
    beyond (position r) x = true ∧ beyond (position r) r = false

/-- What is beyond a position stays so further on. -/
def Upward (position : R → P) (beyond : P → R → Bool) : Prop :=
  ∀ k r x, position r < position x → beyond k r = true → beyond k x = true

variable {t : Table key} {p : R → Bool} {position : R → P} {beyond : P → R → Bool} {limit : Nat}

/-- Rows under different positions are selected in strict order. -/
theorem select_pairwise_lt (hposition : ∀ r r', position r = position r' → key r = key r') :
    (t.select p position).Pairwise fun r r' => position r < position r' := by
  have htotal : Std.Total fun r r' : R => position r ≤ position r' :=
    ⟨fun r r' => le_total (position r) (position r')⟩
  have htrans : IsTrans R fun r r' => position r ≤ position r' := ⟨fun _ _ _ => le_trans⟩
  have hsorted : (t.select p position).Pairwise fun r r' => position r ≤ position r' :=
    List.pairwise_insertionSort _ _
  have hnodup : (t.select p position).Nodup :=
    (List.perm_insertionSort _ _).nodup_iff.mpr (t.nodup.filter p)
  refine (hsorted.and hnodup).imp_of_mem ?_
  rintro r r' hr hr' ⟨hle, hne⟩
  refine lt_of_le_of_ne hle fun heq => hne ?_
  exact Table.eq_of_key (Table.mem_select.mp hr).1 (Table.mem_select.mp hr').1
    (hposition r r' heq)

/-- A test selects what it leaves of the selection. -/
theorem select_and (hposition : ∀ r r', position r = position r' → key r = key r')
    (q : R → Bool) : t.select (fun r => p r && q r) position = (t.select p position).filter q := by
  have hperm : (t.select (fun r => p r && q r) position).Perm ((t.select p position).filter q) := by
    refine (List.perm_ext_iff_of_nodup ?_ ?_).mpr fun r => ?_
    · exact (select_pairwise_lt hposition).imp fun h heq => absurd (heq ▸ h) (lt_irrefl _)
    · exact ((select_pairwise_lt hposition).imp fun h heq =>
        absurd (heq ▸ h) (lt_irrefl _) : List.Nodup _).filter q
    · simp [Table.mem_select, and_assoc]
  refine hperm.eq_of_pairwise (fun r r' _ _ h h' => absurd (h.trans h') (lt_irrefl _))
    (select_pairwise_lt hposition) ((select_pairwise_lt hposition).filter q)

/-- In a list in strict order the rows behind a row are those beyond a position that is between it
and the next one. -/
theorem filter_beyond (hup : Upward position beyond) {before behind : List R} {r x : R} {k : P}
    (h : (before ++ r :: x :: behind).Pairwise fun r r' => position r < position r')
    (hx : beyond k x = true) (hr : beyond k r = false) :
    (before ++ r :: x :: behind).filter (beyond k) = x :: behind := by
  obtain ⟨-, hbehind, hacross⟩ := List.pairwise_append.mp h
  obtain ⟨-, hrest⟩ := List.pairwise_cons.mp hbehind
  have hnone : before.filter (beyond k) = [] := by
    refine List.filter_eq_nil_iff.mpr fun y hy hbeyond => ?_
    rw [hup k y r (hacross y hy r List.mem_cons_self) hbeyond] at hr
    cases hr
  have hall : (x :: behind).filter (beyond k) = x :: behind := by
    refine List.filter_eq_self.mpr fun y hy => ?_
    rcases List.mem_cons.mp hy with rfl | hy
    · exact hx
    · exact hup k x y ((List.pairwise_cons.mp hrest).1 y hy) hx
  rw [List.filter_append, hnone, List.filter_cons_of_neg (by simp [hr]), hall, List.nil_append]

/-- The rows that a cursor leaves are at the end of the selection. -/
def Leaves (t : Table key) (p : R → Bool) (position : R → P) (beyond : P → R → Bool)
    (after : Option P) (rest : List R) : Prop :=
  t.select (fun r => p r && after.all (beyond · r)) position = rest ∧
    rest <:+ t.select p position

theorem leaves_none : Leaves t p position beyond none (t.select p position) := by
  constructor
  · simp
  · exact List.suffix_refl _

/-- The cursor of a page leaves what the page did not show. -/
theorem Leaves.next (hposition : ∀ r r', position r = position r' → key r = key r')
    (hup : Upward position beyond) {after : Option P} {shown rest : List R} {r x : R}
    (h : Leaves t p position beyond after (shown ++ r :: x :: rest))
    (hx : beyond (position r) x = true) (hr : beyond (position r) r = false) :
    Leaves t p position beyond (some (position r)) (x :: rest) := by
  obtain ⟨before, hbefore⟩ := h.2
  rw [← List.append_assoc] at hbefore
  have hsorted := select_pairwise_lt (t := t) (p := p) hposition
  constructor
  · simp only [Option.all_some]
    rw [select_and hposition, ← hbefore]
    rw [← hbefore] at hsorted
    exact filter_beyond hup hsorted hx hr
  · rw [← hbefore]
    exact ⟨before ++ shown ++ [r], by simp⟩

theorem keysetFetch_eq {after : Option P} {rest : List R}
    (h : t.select (fun r => p r && after.all (beyond · r)) position = rest) :
    keysetFetch t p position beyond limit after =
      (rest.take limit,
        if limit < rest.length then (rest.take limit).getLast?.map position else none) := by
  have hmore : limit < (rest.take (limit + 1)).length ↔ limit < rest.length := by
    rw [List.length_take]
    omega
  simp only [keysetFetch, keysetPage, h, List.take_take, min_eq_left (Nat.le_succ limit),
    decide_eq_true_eq, hmore]

/-- The first row that is shown after a cursor is the first one beyond it. -/
theorem head?_of_follow (hlimit : 0 < limit) {after : Option P} {x : R} {rest : List R}
    {fuel : Nat} (h : follow (fun cursor => some (keysetFetch t p position beyond limit cursor))
      fuel after = some (x :: rest)) :
    (t.select (fun r => p r && after.all (beyond · r)) position).head? = some x := by
  cases fuel with
  | zero => cases h
  | succ fuel =>
      rw [follow, keysetFetch_eq rfl] at h
      cases hfound : t.select (fun r => p r && after.all (beyond · r)) position with
      | nil => simp [hfound] at h
      | cons y found =>
          obtain ⟨limit, rfl⟩ := Nat.exists_eq_add_one_of_ne_zero hlimit.ne'
          rw [hfound, List.take_succ_cons, Option.bind_some] at h
          split at h
          · rename_i heq
            obtain ⟨rfl, -⟩ := Prod.mk.inj heq
            obtain ⟨rfl, -⟩ := List.cons.inj (Option.some.inj h)
            rfl
          · rename_i heq
            obtain ⟨rfl, -⟩ := Prod.mk.inj heq
            obtain ⟨later, -, hshown⟩ := Option.map_eq_some_iff.mp h
            obtain ⟨rfl, -⟩ := List.cons.inj hshown
            rfl

omit [LinearOrder P] in
theorem parted_of_length_le {rest : List R} (h : rest.length ≤ limit) :
    Parted position beyond limit rest := by
  intro k r _ x hx
  have hlen : rest.length ≤ (k + 1) * limit := h.trans (Nat.le_mul_of_pos_left _ k.succ_pos)
  rw [List.getElem?_eq_none hlen] at hx
  cases hx

omit [LinearOrder P] in
/-- The pages after the first one are those of the rows that it leaves. -/
theorem parted_iff {shown behind : List R} {r x : R} (hlimit : (shown ++ [r]).length = limit) :
    Parted position beyond limit (shown ++ r :: x :: behind) ↔
      (beyond (position r) x = true ∧ beyond (position r) r = false) ∧
        Parted position beyond limit (x :: behind) := by
  have hsplit : shown ++ r :: x :: behind = (shown ++ [r]) ++ x :: behind := by simp
  have hfirst : (shown ++ r :: x :: behind)[limit - 1]? = some r := by
    rw [← hlimit]
    simp
  have hsecond : (shown ++ r :: x :: behind)[limit]? = some x := by
    rw [hsplit, List.getElem?_append_right hlimit.le, hlimit]
    simp
  have hlater (i : Nat) : (shown ++ r :: x :: behind)[limit + i]? = (x :: behind)[i]? := by
    rw [hsplit, List.getElem?_append_right (by omega), hlimit, Nat.add_sub_cancel_left]
  have hpos : 0 < limit := by simp [← hlimit]
  have hpage (k : Nat) : (k + 1 + 1) * limit - 1 = limit + ((k + 1) * limit - 1) ∧
      (k + 1 + 1) * limit = limit + (k + 1) * limit := by
    have hle : limit ≤ (k + 1) * limit := Nat.le_mul_of_pos_left _ k.succ_pos
    rw [Nat.add_mul (k + 1) 1]
    omega
  constructor
  · intro h
    refine ⟨h 0 r (by simpa using hfirst) x (by simpa using hsecond), fun k r' hr' x' hx' => ?_⟩
    refine h (k + 1) r' ?_ x' ?_
    · rwa [(hpage k).1, hlater]
    · rwa [(hpage k).2, hlater]
  · rintro ⟨hnow, h⟩ k r' hr' x' hx'
    cases k with
    | zero =>
        rw [Nat.zero_add, Nat.one_mul] at hr' hx'
        rw [hfirst, Option.mem_some_iff] at hr'
        rw [hsecond, Option.mem_some_iff] at hx'
        exact hr' ▸ hx' ▸ hnow
    | succ k =>
        rw [(hpage k).1, hlater] at hr'
        rw [(hpage k).2, hlater] at hx'
        exact h k r' hr' x' hx'

/-- A page with a next one, its last row and the first row that it leaves. -/
theorem exists_page {rest : List R} (hlimit : 0 < limit) (hmore : limit < rest.length) :
    ∃ shown r x behind, (shown ++ [r]).length = limit ∧ rest = shown ++ r :: x :: behind := by
  obtain ⟨shown, r, hshown⟩ : ∃ shown r, rest.take limit = shown ++ [r] := by
    have hne : rest.take limit ≠ [] := by
      rw [← List.length_pos_iff, List.length_take]
      omega
    exact ⟨_, _, (List.dropLast_append_getLast hne).symm⟩
  have hdrop : rest.drop limit ≠ [] := by
    rw [← List.length_pos_iff, List.length_drop]
    omega
  obtain ⟨x, behind, hbehind⟩ := List.exists_cons_of_ne_nil hdrop
  refine ⟨shown, r, x, behind, ?_, ?_⟩
  · rw [← hshown, List.length_take, min_eq_left hmore.le]
  · rw [← List.take_append_drop limit rest, hshown, hbehind]
    simp

/-- A cursor after which the next row comes first parts it from the last row of the page. -/
theorem Leaves.parts (hposition : ∀ r r', position r = position r' → key r = key r')
    (hlimit : 0 < limit) {after : Option P} {shown behind : List R} {r x : R}
    (h : Leaves t p position beyond after (shown ++ r :: x :: behind)) {fuel : Nat}
    (hfollow : follow (fun cursor => some (keysetFetch t p position beyond limit cursor)) fuel
      (some (position r)) = some (x :: behind)) :
    beyond (position r) x = true ∧ beyond (position r) r = false := by
  have hhead := head?_of_follow hlimit hfollow
  simp only [Option.all_some] at hhead
  rw [select_and hposition] at hhead
  obtain ⟨later, hfound⟩ := List.head?_eq_some_iff.mp hhead
  have hsorted := select_pairwise_lt (t := t) (p := p) hposition
  have hlt : position r < position x :=
    (List.pairwise_cons.mp (List.pairwise_append.mp (hsorted.sublist h.2.sublist)).2.1).1 x
      List.mem_cons_self
  have hmem : x ∈ (t.select p position).filter (beyond (position r)) := by
    rw [hfound]
    exact List.mem_cons_self
  refine ⟨(List.mem_filter.mp hmem).2, ?_⟩
  by_contra hr
  -- the last row of the page would be found before the next one
  have hmemr : r ∈ x :: later := by
    rw [← hfound, List.mem_filter]
    exact ⟨h.2.subset (by simp), by simpa using hr⟩
  have hfiltered := hsorted.filter (beyond (position r))
  rw [hfound] at hfiltered
  rcases List.mem_cons.mp hmemr with rfl | hlater
  · exact lt_irrefl _ hlt
  · exact lt_asymm hlt ((List.pairwise_cons.mp hfiltered).1 r hlater)

/-- Pages of at least one row show every row that a cursor leaves, in order, exactly if the pages
are parted. -/
theorem follow_keysetFetch_iff (hposition : ∀ r r', position r = position r' → key r = key r')
    (hup : Upward position beyond) (hlimit : 0 < limit) {after : Option P} {rest : List R}
    (h : Leaves t p position beyond after rest) {fuel : Nat} (hfuel : rest.length < fuel) :
    follow (fun cursor => some (keysetFetch t p position beyond limit cursor)) fuel after =
      some rest ↔ Parted position beyond limit rest := by
  induction fuel generalizing after rest with
  | zero => omega
  | succ fuel ih =>
      rw [follow, keysetFetch_eq h.1, Option.bind_some]
      by_cases hmore : limit < rest.length
      · obtain ⟨shown, r, x, behind, hlen, rfl⟩ := exists_page hlimit hmore
        have hsplit : shown ++ r :: x :: behind = (shown ++ [r]) ++ x :: behind := by simp
        have htake : (shown ++ r :: x :: behind).take limit = shown ++ [r] := by
          rw [← hlen, hsplit, List.take_left]
        rw [htake, if_pos hmore, List.getLast?_concat, Option.map_some, parted_iff hlen, hsplit,
          Option.map_eq_some_iff]
        simp only [List.append_cancel_left_eq, exists_eq_right]
        constructor
        · intro hfollow
          have hparts := h.parts hposition hlimit hfollow
          refine ⟨hparts, (ih (h.next hposition hup hparts.1 hparts.2) ?_).mp hfollow⟩
          simp only [List.length_append, List.length_cons] at hfuel ⊢
          omega
        · rintro ⟨hparts, hparted⟩
          refine (ih (h.next hposition hup hparts.1 hparts.2) ?_).mpr hparted
          simp only [List.length_append, List.length_cons] at hfuel ⊢
          omega
      · rw [if_neg hmore, List.take_of_length_le (not_lt.mp hmore)]
        exact iff_of_true rfl (parted_of_length_le (not_lt.mp hmore))

end Keyset

end Dalston.Foundation
