import Dalston.Foundation.Dict
import Dalston.Foundation.FileTree

/-!
# Artifact stores

Three adapters store artifacts under keys: in a bucket of an object store, in a directory of the
local filesystem and in memory. The object store reads a prefix as text, the filesystem as a
directory and the store in memory as whole segments of a key.

## Implementation notes

An artifact's URI names its key, so reading and testing take the key. The bucket is a map from
keys to contents that lists its keys by prefix; its requests do not fail. Paths are resolved
without links, and the names of directories and files are compared as they are.
-/

namespace Dalston.Gateway.ArtifactStores

open Foundation

variable {B : Type}

inductive StoreError
  | valueError
  | file (e : FileError)

inductive Answer (B : Type)
  | done
  | bytes (payload : B)
  | bool (b : Bool)

/-- A call of the `ArtifactStore` protocol. -/
inductive Call (B : Type)
  | writeBytes (key : String) (payload : B)
  | readBytes (key : String)
  | exists_ (key : String)
  | hasPrefix (text : String)
  | deletePrefix (text : String)

section Texts

/-- `text.lstrip("/")`. -/
def lstripSlash (text : String) : String := String.ofList (text.toList.dropWhile (· = '/'))

/-- `text.rstrip("/")`. -/
def rstripSlash (text : String) : String := String.ofList (text.toList.rdropWhile (· = '/'))

/-- `text.startswith(prefix)`. -/
def startsWith (text initial : String) : Bool := initial.toList <+: text.toList

end Texts

section S3

structure S3Store (B : Type) where
  objects : Dict B

namespace S3Store

/-- `list_objects_v2`, over all pages. -/
def listObjects (s : S3Store B) (text : String) : List String :=
  (s.objects.map Prod.fst).filter (startsWith · text)

/-- `S3ArtifactStoreAdapter`. -/
def step (s : S3Store B) : Call B → Except StoreError (Answer B) × S3Store B
  | .writeBytes key payload => (.ok .done, ⟨s.objects.set key payload⟩)
  | .readBytes key =>
      match s.objects.get? key with
      | some payload => (.ok (.bytes payload), s)
      | none => (.error (.file .fileNotFound), s)
  | .exists_ key => (.ok (.bool (s.objects.contains key)), s)
  | .hasPrefix text => (.ok (.bool (!(s.listObjects text).isEmpty)), s)
  | .deletePrefix text => (.ok .done, ⟨s.objects.eraseAll (s.listObjects text)⟩)

end S3Store

end S3

section LocalFilesystem

/-- A path, as the names of its parts from the root of the filesystem or of the store. -/
abbrev TreePath := List (List Char)

structure LocalStore (B : Type) where
  root : TreePath
  tree : FileTree (List Char) B

/-- Take one more part of a path; dots are resolved. -/
def enter (path : TreePath) (part : List Char) : TreePath :=
  if part = [] ∨ part = ['.'] then path
  else if part = ['.', '.'] then path.dropLast
  else path ++ [part]

namespace LocalStore

/-- `_path_for_key`, relative to the root of the store. -/
def pathForKey (s : LocalStore B) (key : String) : Except StoreError TreePath :=
  let base := if key.toList.head? = some '/' then [] else s.root
  let resolved := (key.toList.splitOn '/').foldl enter base
  if s.root <+: resolved then .ok (resolved.drop s.root.length) else .error .valueError

/-- Answer with the path of a key, unless it escapes the root. -/
def withPath (s : LocalStore B) (key : String)
    (f : TreePath → Except StoreError (Answer B) × LocalStore B) :
    Except StoreError (Answer B) × LocalStore B :=
  match s.pathForKey key with
  | .ok path => f path
  | .error e => (.error e, s)

/-- `LocalFilesystemArtifactStoreAdapter`. -/
def step (s : LocalStore B) : Call B → Except StoreError (Answer B) × LocalStore B
  | .writeBytes key payload =>
      s.withPath key fun path =>
        match s.tree.write path payload with
        | .ok tree => (.ok .done, { s with tree })
        | .error e => (.error (.file e), s)
  | .readBytes key =>
      s.withPath key fun path =>
        match s.tree.read path with
        | .ok payload => (.ok (.bytes payload), s)
        | .error e => (.error (.file e), s)
  | .exists_ key => s.withPath key fun path => (.ok (.bool (s.tree.pathExists path)), s)
  | .hasPrefix text =>
      s.withPath (rstripSlash text) fun path =>
        (.ok (.bool (s.tree.isFile path || s.tree.isDir path && s.tree.hasEntry path)), s)
  | .deletePrefix text =>
      s.withPath (rstripSlash text) fun path =>
        if s.tree.isFile path then (.ok .done, { s with tree := s.tree.unlink path })
        else if s.tree.isDir path then (.ok .done, { s with tree := s.tree.rmtree path })
        else (.ok .done, s)

end LocalStore

end LocalFilesystem

section InMemory

structure InMemoryStore (B : Type) where
  objects : Dict B

namespace InMemoryStore

def normalizeKey (key : String) : Except StoreError String :=
  if lstripSlash key = "" then .error .valueError else .ok (lstripSlash key)

def prefixMatches (key text : String) : Bool :=
  rstripSlash text = "" || key = rstripSlash text || startsWith key (rstripSlash text ++ "/")

/-- Answer with a normalized key. -/
def withKey (s : InMemoryStore B) (key : String)
    (f : String → Except StoreError (Answer B) × InMemoryStore B) :
    Except StoreError (Answer B) × InMemoryStore B :=
  match normalizeKey key with
  | .ok key => f key
  | .error e => (.error e, s)

/-- `InMemoryArtifactStoreAdapter`. -/
def step (s : InMemoryStore B) : Call B → Except StoreError (Answer B) × InMemoryStore B
  | .writeBytes key payload =>
      s.withKey key fun key => (.ok .done, ⟨s.objects.set key payload⟩)
  | .readBytes key =>
      s.withKey key fun key =>
        match s.objects.get? key with
        | some payload => (.ok (.bytes payload), s)
        | none => (.error (.file .fileNotFound), s)
  | .exists_ key => s.withKey key fun key => (.ok (.bool (s.objects.contains key)), s)
  | .hasPrefix text =>
      (.ok (.bool ((s.objects.map Prod.fst).any (prefixMatches · (lstripSlash text)))), s)
  | .deletePrefix text =>
      (.ok .done, ⟨s.objects.eraseAll
        ((s.objects.map Prod.fst).filter (prefixMatches · (lstripSlash text)))⟩)

end InMemoryStore

end InMemory

section Keys

/-- A segment of a key, which is a name that a filesystem accepts. -/
structure Segment where
  chars : List Char
  ne_nil : chars ≠ []
  no_slash : '/' ∉ chars
  no_null : Char.ofNat 0 ∉ chars
  ne_dot : chars ≠ ['.']
  ne_dots : chars ≠ ['.', '.']

/-- A key of at least one segment. -/
structure Key where
  segments : List Segment
  ne_nil : segments ≠ []

def Key.path (k : Key) : TreePath := k.segments.map Segment.chars

def Key.text (k : Key) : String := String.ofList (['/'].intercalate k.path)

/-- The path of a prefix, which may end with a slash. -/
structure Prefix where
  key : Key
  slash : Bool

def Prefix.text (p : Prefix) : String :=
  String.ofList (p.key.text.toList ++ if p.slash then ['/'] else [])

/-- A key is the path of the prefix, or lies below it. -/
def Prefix.Covers (p : Prefix) (k : Key) : Prop := p.key.path <+: k.path

theorem Key.path_ne_nil (k : Key) : k.path ≠ [] := by
  simpa [Key.path] using k.ne_nil

theorem Key.of_mem_path {k : Key} {part : List Char} (h : part ∈ k.path) :
    ∃ segment : Segment, segment.chars = part := by
  obtain ⟨segment, -, rfl⟩ := List.mem_map.mp h
  exact ⟨segment, rfl⟩

@[simp] theorem Key.toList_text (k : Key) : k.text.toList = ['/'].intercalate k.path :=
  String.toList_ofList

theorem Key.no_slash {k : Key} : ∀ part ∈ k.path, '/' ∉ part := by
  intro part hpart
  obtain ⟨segment, rfl⟩ := Key.of_mem_path hpart
  exact segment.no_slash

theorem Key.splitOn_text (k : Key) : k.text.toList.splitOn '/' = k.path := by
  rw [Key.toList_text]
  exact List.splitOn_intercalate '/' Key.no_slash k.path_ne_nil

theorem Key.path_eq_of_text_eq {k k' : Key} (h : k.text = k'.text) : k.path = k'.path := by
  rw [← k.splitOn_text, h, k'.splitOn_text]

theorem Key.text_eq_of_path_eq {k k' : Key} (h : k.path = k'.path) : k.text = k'.text := by
  rw [Key.text, h, Key.text]

/-- The text of a key goes on with a slash after the texts of the keys above it. -/
theorem Key.slash_prefix_iff {p k : Key} :
    p.text.toList ++ ['/'] <+: k.text.toList ↔ p.path <+: k.path ∧ p.path ≠ k.path := by
  constructor
  · rintro ⟨rest, hrest⟩
    have hpath : k.path = p.path ++ rest.splitOn '/' := by
      rw [← k.splitOn_text, ← hrest, List.append_assoc, List.singleton_append,
        List.splitOn_append_cons_self, p.splitOn_text]
    rw [hpath]
    refine ⟨List.prefix_append _ _, fun heq => ?_⟩
    exact List.splitOn_ne_nil '/' rest (List.self_eq_append_right.mp heq)
  · rintro ⟨⟨rest, hrest⟩, hne⟩
    have hrest' : rest ≠ [] := by
      rintro rfl
      exact hne (by rw [← hrest, List.append_nil])
    have hslash : ∀ part ∈ rest, '/' ∉ part := by
      intro part hpart
      exact Key.no_slash part (hrest ▸ List.mem_append_right _ hpart)
    have htext : k.text.toList = p.text.toList ++ '/' :: ['/'].intercalate rest := by
      have hsplit : (p.text.toList ++ '/' :: ['/'].intercalate rest).splitOn '/' = k.path := by
        rw [List.splitOn_append_cons_self, p.splitOn_text,
          List.splitOn_intercalate '/' hslash hrest', hrest]
      rw [Key.toList_text k, ← hsplit, List.intercalate_splitOn]
    rw [htext]
    exact ⟨['/'].intercalate rest, by simp⟩

end Keys

section Reading

theorem startsWith_iff {text initial : String} :
    startsWith text initial = true ↔ initial.toList <+: text.toList := by
  rw [startsWith, decide_eq_true_eq]

/-- The text of a key neither begins nor ends with a slash. -/
theorem Key.text_ne_of_nil {k : Key} {before after : List Char} (h : before = [] ∨ after = []) :
    k.text.toList ≠ before ++ '/' :: after := by
  intro heq
  have hpath : k.path = before.splitOn '/' ++ after.splitOn '/' := by
    rw [← k.splitOn_text, heq, List.splitOn_append_cons_self]
  have hmem : [] ∈ k.path := by
    rw [hpath, List.mem_append]
    exact h.imp (fun h => by simp [h]) fun h => by simp [h]
  obtain ⟨segment, hsegment⟩ := Key.of_mem_path hmem
  exact segment.ne_nil hsegment

theorem Key.text_toList_ne_nil (k : Key) : k.text.toList ≠ [] := by
  intro h
  have hpath := k.splitOn_text
  rw [h, List.splitOn_nil] at hpath
  have hmem : [] ∈ k.path := by
    rw [← hpath]
    exact List.mem_singleton_self _
  obtain ⟨segment, hsegment⟩ := Key.of_mem_path hmem
  exact segment.ne_nil hsegment

theorem Key.rdropWhile_text (k : Key) :
    k.text.toList.rdropWhile (· = '/') = k.text.toList := by
  rw [List.rdropWhile_eq_self_iff]
  intro hne hlast
  have hslash : k.text.toList.getLast hne = '/' := by simpa using hlast
  have htext : k.text.toList = k.text.toList.dropLast ++ ['/'] := by
    rw [← hslash, List.dropLast_append_getLast hne]
  exact Key.text_ne_of_nil (Or.inr rfl) htext

theorem Key.dropWhile_text (k : Key) (rest : List Char) :
    (k.text.toList ++ rest).dropWhile (· = '/') = k.text.toList ++ rest := by
  cases htext : k.text.toList with
  | nil => exact absurd htext k.text_toList_ne_nil
  | cons c text =>
      have hc : c ≠ '/' := by
        rintro rfl
        exact Key.text_ne_of_nil (k := k) (Or.inl rfl) htext
      rw [List.cons_append, List.dropWhile_cons_of_neg (by simpa using hc)]

theorem lstripSlash_key (k : Key) : lstripSlash k.text = k.text := by
  have htext := k.dropWhile_text []
  rw [List.append_nil] at htext
  rw [lstripSlash, htext, String.ofList_toList]

theorem lstripSlash_prefixText (p : Prefix) : lstripSlash p.text = p.text := by
  rw [lstripSlash, Prefix.text, String.toList_ofList, Key.dropWhile_text]

theorem rstripSlash_prefixText (p : Prefix) : rstripSlash p.text = p.key.text := by
  rw [rstripSlash, Prefix.text, String.toList_ofList]
  cases p.slash with
  | false =>
      simp only [Bool.false_eq_true, if_false, List.append_nil]
      rw [Key.rdropWhile_text, String.ofList_toList]
  | true =>
      rw [if_pos rfl, List.rdropWhile_concat_pos _ _ _ (by simp), Key.rdropWhile_text,
        String.ofList_toList]

theorem normalizeKey_key (k : Key) : InMemoryStore.normalizeKey k.text = .ok k.text := by
  have hne : k.text ≠ "" := fun h => k.text_toList_ne_nil (by rw [h]; rfl)
  rw [InMemoryStore.normalizeKey, lstripSlash_key, if_neg hne]

/-- The store in memory matches the keys that a prefix covers. -/
theorem prefixMatches_iff {p : Prefix} {k : Key} :
    InMemoryStore.prefixMatches k.text p.text = true ↔ p.Covers k := by
  have hne : p.key.text ≠ "" := fun h => p.key.text_toList_ne_nil (by rw [h]; rfl)
  rw [InMemoryStore.prefixMatches, rstripSlash_prefixText]
  simp only [Bool.or_eq_true, decide_eq_true_eq, hne, false_or, startsWith_iff]
  rw [String.toList_append, show "/".toList = ['/'] from rfl, Key.slash_prefix_iff]
  constructor
  · rintro (heq | ⟨hunder, -⟩)
    · rw [Prefix.Covers, Key.path_eq_of_text_eq heq]
    · exact hunder
  · intro h
    by_cases heq : p.key.path = k.path
    · exact Or.inl (Key.text_eq_of_path_eq heq.symm)
    · exact Or.inr ⟨h, heq⟩

theorem foldl_enter_path (root : TreePath) (k : Key) :
    k.path.foldl enter root = root ++ k.path := by
  rw [Key.path]
  induction k.segments generalizing root with
  | nil => simp
  | cons segment segments ih =>
      have henter : enter root segment.chars = root ++ [segment.chars] := by
        rw [enter, if_neg (by simp [segment.ne_nil, segment.ne_dot]), if_neg segment.ne_dots]
      rw [List.map_cons, List.foldl_cons, henter, ih, List.append_assoc, List.singleton_append]

theorem pathForKey_key (s : LocalStore B) (k : Key) : s.pathForKey k.text = .ok k.path := by
  have hhead : k.text.toList.head? ≠ some '/' := by
    intro h
    obtain ⟨rest, hrest⟩ := List.head?_eq_some_iff.mp h
    exact Key.text_ne_of_nil (Or.inl rfl) hrest
  rw [LocalStore.pathForKey, if_neg hhead, k.splitOn_text, foldl_enter_path]
  simp

theorem withPath_key (s : LocalStore B) (k : Key)
    (f : TreePath → Except StoreError (Answer B) × LocalStore B) :
    s.withPath k.text f = f k.path := by
  rw [LocalStore.withPath, pathForKey_key]

theorem withPath_prefixText (s : LocalStore B) (p : Prefix)
    (f : TreePath → Except StoreError (Answer B) × LocalStore B) :
    s.withPath (rstripSlash p.text) f = f p.key.path := by
  rw [rstripSlash_prefixText, withPath_key]

theorem withKey_key (s : InMemoryStore B) (k : Key)
    (f : String → Except StoreError (Answer B) × InMemoryStore B) :
    s.withKey k.text f = f k.text := by
  rw [InMemoryStore.withKey, normalizeKey_key]

end Reading

section Agreement

/-- The same artifacts in a bucket, in a directory and in memory. -/
structure Stores (B : Type) where
  s3 : S3Store B
  files : LocalStore B
  memory : InMemoryStore B

/-- A call with a key, or with a prefix that is made of segments. -/
inductive PathCall (B : Type)
  | writeBytes (k : Key) (payload : B)
  | readBytes (k : Key)
  | exists_ (k : Key)
  | hasPrefix (p : Prefix)
  | deletePrefix (p : Prefix)

def PathCall.call : PathCall B → Call B
  | .writeBytes k payload => .writeBytes k.text payload
  | .readBytes k => .readBytes k.text
  | .exists_ k => .exists_ k.text
  | .hasPrefix p => .hasPrefix p.text
  | .deletePrefix p => .deletePrefix p.text

namespace Stores

/-- Empty stores; the directory of the local one may be there. -/
def start (root : TreePath) (present : Bool) : Stores B :=
  ⟨⟨[]⟩, ⟨root, FileTree.empty present⟩, ⟨[]⟩⟩

def step (s : Stores B) (c : PathCall B) : Stores B :=
  ⟨(s.s3.step c.call).2, (s.files.step c.call).2, (s.memory.step c.call).2⟩

/-- The stores hold the same contents under every key. -/
structure Same (s : Stores B) : Prop where
  s3 : ∀ k : Key, s.s3.objects.get? k.text = s.files.tree.file? k.path
  memory : ∀ k : Key, s.memory.objects.get? k.text = s.files.tree.file? k.path

/-- A call leaves what the stores hold under a key. -/
structure Keeps (s : Stores B) (c : PathCall B) (k : Key) : Prop where
  s3 : (s.step c).s3.objects.get? k.text = s.s3.objects.get? k.text
  files : (s.step c).files.tree.file? k.path = s.files.tree.file? k.path
  memory : (s.step c).memory.objects.get? k.text = s.memory.objects.get? k.text

/-- A call gets the same answer from the three stores and leaves them with the same contents;
a deletion leaves the keys that its prefix does not cover. -/
structure Agrees (s : Stores B) (c : PathCall B) : Prop where
  files : (s.files.step c.call).1 = (s.s3.step c.call).1
  memory : (s.memory.step c.call).1 = (s.s3.step c.call).1
  same : (s.step c).Same
  others : ∀ p, c = .deletePrefix p → ∀ k, ¬ p.Covers k → s.Keeps c k

/-- A key is held. -/
def Holds (s : Stores B) (k : Key) : Prop := s.files.tree.isFile k.path = true

/-- The adapters understand the call alike. -/
def Clear (s : Stores B) : PathCall B → Prop
  /- The key is no directory, and no key is above it. -/
  | .writeBytes k _ | .readBytes k => s.files.tree.Free k.path
  | .exists_ k => s.files.tree.isDir k.path = false
  /- The prefix covers a key and is none with a slash behind it; or no key is covered or goes on
  with the text, and no directory is left within the prefix. -/
  | .hasPrefix p =>
      ((∃ k, s.Holds k ∧ p.Covers k) ∧ ¬ (p.slash = true ∧ s.Holds p.key)) ∨
      ((∀ k, s.Holds k → ¬ p.Covers k ∧ ¬ startsWith k.text p.text = true) ∧
        ¬ (s.files.tree.isDir p.key.path = true ∧ s.files.tree.hasEntry p.key.path = true))
  /- The prefix is no key with a slash behind it, and a key that goes on with the text is
  covered. -/
  | .deletePrefix p =>
      ¬ (p.slash = true ∧ s.Holds p.key) ∧
        ∀ k, s.Holds k → startsWith k.text p.text = true → p.Covers k

/-- Every stored key is one that is made of segments. -/
structure Proper (s : Stores B) : Prop where
  s3 : ∀ key, s.s3.objects.contains key = true → ∃ k : Key, k.text = key
  files : ∀ path, s.files.tree.isFile path = true → ∃ k : Key, k.path = path
  memory : ∀ key, s.memory.objects.contains key = true → ∃ k : Key, k.text = key

/-- The calls of a run all agree, each in the state before it. -/
def RunAgrees : Stores B → List (PathCall B) → Prop
  | _, [] => True
  | s, c :: calls => s.Agrees c ∧ (s.step c).RunAgrees calls

/-- The calls of a run are all clear, each in the state before it. -/
def RunClear : Stores B → List (PathCall B) → Prop
  | _, [] => True
  | s, c :: calls => s.Clear c ∧ (s.step c).RunClear calls

variable {s : Stores B} {k : Key} {p : Prefix} {payload : B}

theorem Same.s3_contains (h : s.Same) (k : Key) :
    s.s3.objects.contains k.text = s.files.tree.isFile k.path := by
  rw [Dict.contains, h.s3 k, FileTree.isFile]

theorem Same.memory_contains (h : s.Same) (k : Key) :
    s.memory.objects.contains k.text = s.files.tree.isFile k.path := by
  rw [Dict.contains, h.memory k, FileTree.isFile]

/-- A test of the keys of a dictionary is a test of the held keys. -/
theorem any_iff_of_same {objects : Dict B} {test : String → Bool}
    (hproper : ∀ key, objects.contains key = true → ∃ k : Key, k.text = key)
    (hsame : ∀ k : Key, objects.contains k.text = s.files.tree.isFile k.path) :
    (objects.map Prod.fst).any test = true ↔ ∃ k, s.Holds k ∧ test k.text = true := by
  have hmem (key : String) : key ∈ objects.map Prod.fst ↔ objects.contains key = true := by
    rw [Dict.contains_iff, List.mem_map]
  rw [List.any_eq_true]
  constructor
  · rintro ⟨key, hkey, htest⟩
    rw [hmem] at hkey
    obtain ⟨k, rfl⟩ := hproper key hkey
    exact ⟨k, by rw [Holds, ← hsame k, hkey], htest⟩
  · rintro ⟨k, hk, htest⟩
    refine ⟨k.text, ?_, htest⟩
    rw [hmem, hsame k]
    exact hk

/-- What erasing the keys that pass a test leaves under a key. -/
theorem get?_eraseAll_filter (objects : Dict B) (test : String → Bool) (key : String) :
    (objects.eraseAll ((objects.map Prod.fst).filter test)).get? key =
      if test key = true then none else objects.get? key := by
  rw [Dict.get?_eraseAll]
  by_cases htest : test key = true
  · rw [if_pos htest]
    split_ifs with hmem
    · rfl
    · have hnone : objects.contains key = false := by
        rw [Bool.eq_false_iff, ne_eq, Dict.contains_iff]
        rintro ⟨entry, hentry, rfl⟩
        exact hmem (List.mem_filter.mpr ⟨List.mem_map_of_mem hentry, htest⟩)
      simpa [Dict.contains] using hnone
  · rw [if_neg htest, if_neg fun hmem => htest (List.mem_filter.mp hmem).2]

section Calls

theorem startsWith_of_covers (h : p.Covers k) (hne : p.slash = true → p.key.path ≠ k.path) :
    startsWith k.text p.text = true := by
  rw [startsWith_iff, Prefix.text, String.toList_ofList]
  cases hslash : p.slash with
  | true =>
      rw [if_pos rfl]
      exact Key.slash_prefix_iff.mpr ⟨h, hne hslash⟩
  | false =>
      rw [if_neg Bool.false_ne_true, List.append_nil]
      by_cases heq : p.key.path = k.path
      · rw [Key.text_eq_of_path_eq heq]
      · exact (List.prefix_append _ _).trans (Key.slash_prefix_iff.mpr ⟨h, heq⟩)

theorem covers_of_startsWith (hslash : p.slash = true) (h : startsWith k.text p.text = true) :
    p.Covers k ∧ p.key.path ≠ k.path := by
  rw [startsWith_iff, Prefix.text, String.toList_ofList, if_pos hslash] at h
  exact Key.slash_prefix_iff.mp h

theorem text_eq_iff {k k' : Key} : k.text = k'.text ↔ k'.path = k.path :=
  ⟨fun heq => (Key.path_eq_of_text_eq heq).symm, fun heq => Key.text_eq_of_path_eq heq.symm⟩

theorem writeBytes_agrees_iff (h : s.Same) :
    s.Agrees (.writeBytes k payload) ↔ s.Clear (.writeBytes k payload) := by
  constructor
  · intro hagrees
    by_contra hfree
    obtain ⟨e, he⟩ := FileTree.write_of_not_free (b := payload) hfree
    have hanswer := hagrees.files
    simp [PathCall.call, LocalStore.step, withPath_key, he, S3Store.step] at hanswer
  · intro hclear
    have hfree : s.files.tree.Free k.path := hclear
    have hfiles : s.files.step (PathCall.writeBytes k payload).call =
        (.ok .done, { s.files with tree := s.files.tree.withFile k.path payload hfree }) := by
      simp only [PathCall.call, LocalStore.step, withPath_key, FileTree.write_of_free hfree]
    have hmemory : s.memory.step (PathCall.writeBytes k payload).call =
        (.ok .done, ⟨s.memory.objects.set k.text payload⟩) := by
      simp only [PathCall.call, InMemoryStore.step, withKey_key]
    have hs3 : s.s3.step (PathCall.writeBytes k payload).call =
        (.ok .done, ⟨s.s3.objects.set k.text payload⟩) := rfl
    refine ⟨by rw [hfiles, hs3], by rw [hmemory, hs3], ⟨?_, ?_⟩, by simp⟩
    · intro k'
      simp only [step, hfiles, hs3, FileTree.file?_withFile, Dict.get?_set, h.s3 k', text_eq_iff]
    · intro k'
      simp only [step, hfiles, hmemory, FileTree.file?_withFile, Dict.get?_set, h.memory k',
        text_eq_iff]

/-- A call that changes nothing agrees when its answers do. -/
theorem agrees_iff_of_step_eq {c : PathCall B} (h : s.Same) (hstep : s.step c = s)
    (hc : ∀ p, c ≠ .deletePrefix p) :
    s.Agrees c ↔ (s.files.step c.call).1 = (s.s3.step c.call).1 ∧
      (s.memory.step c.call).1 = (s.s3.step c.call).1 := by
  constructor
  · exact fun hagrees => ⟨hagrees.files, hagrees.memory⟩
  · rintro ⟨hfiles, hmemory⟩
    exact ⟨hfiles, hmemory, by rw [hstep]; exact h, fun p hp => absurd hp (hc p)⟩

theorem readBytes_agrees_iff (h : s.Same) :
    s.Agrees (.readBytes k) ↔ s.Clear (.readBytes k) := by
  have hfiles : s.files.step (.readBytes k.text) =
      (match s.files.tree.read k.path with
        | .ok payload => .ok (.bytes payload)
        | .error e => .error (.file e), s.files) := by
    rw [LocalStore.step, withPath_key]
    cases s.files.tree.read k.path <;> rfl
  have hmemory : s.memory.step (.readBytes k.text) =
      (match s.files.tree.file? k.path with
        | some payload => .ok (.bytes payload)
        | none => .error (.file .fileNotFound), s.memory) := by
    rw [InMemoryStore.step, withKey_key, h.memory k]
    cases s.files.tree.file? k.path <;> rfl
  have hs3 : s.s3.step (.readBytes k.text) =
      (match s.files.tree.file? k.path with
        | some payload => .ok (.bytes payload)
        | none => .error (.file .fileNotFound), s.s3) := by
    rw [S3Store.step, h.s3 k]
    cases s.files.tree.file? k.path <;> rfl
  rw [agrees_iff_of_step_eq h (by simp only [step, PathCall.call, hfiles, hmemory, hs3]) (by simp),
    PathCall.call, hfiles, hmemory, hs3, Clear]
  cases hfile : s.files.tree.file? k.path with
  | some payload =>
      have hfree : s.files.tree.Free k.path :=
        FileTree.free_of_isFile (by rw [FileTree.isFile, hfile]; rfl)
      exact iff_of_true ⟨by rw [FileTree.read_of_file? hfile], rfl⟩ hfree
  | none =>
      rw [← FileTree.read_eq_fileNotFound_iff hfile]
      cases s.files.tree.read k.path <;> simp

theorem exists_agrees_iff (h : s.Same) : s.Agrees (.exists_ k) ↔ s.Clear (.exists_ k) := by
  have hfiles : s.files.step (.exists_ k.text) =
      (.ok (.bool (s.files.tree.pathExists k.path)), s.files) := by
    rw [LocalStore.step, withPath_key]
  have hmemory : s.memory.step (.exists_ k.text) =
      (.ok (.bool (s.files.tree.isFile k.path)), s.memory) := by
    rw [InMemoryStore.step, withKey_key, h.memory_contains]
  have hs3 : s.s3.step (.exists_ k.text) =
      (.ok (.bool (s.files.tree.isFile k.path)), s.s3) := by
    rw [S3Store.step, h.s3_contains]
  rw [agrees_iff_of_step_eq h (by simp only [step, PathCall.call, hfiles, hmemory, hs3]) (by simp),
    PathCall.call, hfiles, hmemory, hs3, Clear, FileTree.pathExists]
  cases hdir : s.files.tree.isDir k.path with
  | false => simp
  | true => simp [FileTree.isFile_eq_false_of_isDir hdir]

/-- What lies below a held key is not held. -/
theorem not_holds_of_covers (hp : s.Holds p.key) (h : p.Covers k) (hne : p.key.path ≠ k.path) :
    ¬ s.Holds k := by
  rw [Holds, FileTree.not_isFile_of_above hp h hne]
  exact Bool.false_ne_true

/-- A prefix that covers a held key is a file or a directory with entries. -/
theorem present_of_covers (hk : s.Holds k) (h : p.Covers k) :
    s.files.tree.isFile p.key.path = true ∨
      s.files.tree.isDir p.key.path = true ∧ s.files.tree.hasEntry p.key.path = true := by
  by_cases heq : p.key.path = k.path
  · rw [heq]
    exact Or.inl hk
  · exact Or.inr ⟨FileTree.isDir_of_above hk h heq, FileTree.hasEntry_of_above hk h heq⟩

/-- A held key that a prefix covers goes on with the text of the prefix, unless the prefix has a
slash behind a key. -/
theorem startsWith_of_holds (hslash : ¬ (p.slash = true ∧ s.Holds p.key)) (hk : s.Holds k)
    (h : p.Covers k) : startsWith k.text p.text = true := by
  refine startsWith_of_covers h fun hs heq => hslash ⟨hs, ?_⟩
  rw [Holds, heq]
  exact hk

theorem isEmpty_listObjects (store : S3Store B) (text : String) :
    (!(store.listObjects text).isEmpty) = (store.objects.map Prod.fst).any (startsWith · text) := by
  rw [S3Store.listObjects, Bool.eq_iff_iff, List.any_eq_true]
  simp [List.filter_eq_nil_iff]

theorem answer_bool_eq_iff {b b' : Bool} :
    (Except.ok (Answer.bool b) : Except StoreError (Answer B)) = .ok (.bool b') ↔
      (b = true ↔ b' = true) := by
  rw [Except.ok.injEq, Answer.bool.injEq, Bool.eq_iff_iff]

theorem hasPrefix_agrees_iff (h : s.Same) (hproper : s.Proper) :
    s.Agrees (.hasPrefix p) ↔ s.Clear (.hasPrefix p) := by
  have hfiles : s.files.step (.hasPrefix p.text) = (.ok (.bool (s.files.tree.isFile p.key.path ||
      s.files.tree.isDir p.key.path && s.files.tree.hasEntry p.key.path)), s.files) := by
    rw [LocalStore.step, withPath_prefixText]
  have hmemory : s.memory.step (.hasPrefix p.text) = (.ok (.bool ((s.memory.objects.map
      Prod.fst).any (InMemoryStore.prefixMatches · p.text))), s.memory) := by
    rw [InMemoryStore.step, lstripSlash_prefixText]
  have hs3 : s.s3.step (.hasPrefix p.text) =
      (.ok (.bool ((s.s3.objects.map Prod.fst).any (startsWith · p.text))), s.s3) := by
    rw [S3Store.step, isEmpty_listObjects]
  have htext : (s.s3.objects.map Prod.fst).any (startsWith · p.text) = true ↔
      ∃ k, s.Holds k ∧ startsWith k.text p.text = true :=
    any_iff_of_same hproper.s3 h.s3_contains
  have hcover : (s.memory.objects.map Prod.fst).any (InMemoryStore.prefixMatches · p.text) = true ↔
      ∃ k, s.Holds k ∧ InMemoryStore.prefixMatches k.text p.text = true :=
    any_iff_of_same hproper.memory h.memory_contains
  rw [agrees_iff_of_step_eq h (by simp only [step, PathCall.call, hfiles, hmemory, hs3]) (by simp),
    PathCall.call, hfiles, hmemory, hs3, Clear, answer_bool_eq_iff, answer_bool_eq_iff, htext,
    hcover, Bool.or_eq_true, Bool.and_eq_true]
  simp only [prefixMatches_iff]
  constructor
  · rintro ⟨hlocal, hequal⟩
    by_cases hsome : ∃ k, s.Holds k ∧ p.Covers k
    · refine Or.inl ⟨hsome, ?_⟩
      rintro ⟨hslash, hp⟩
      -- the texts of other keys go on with the slash, and they are below the held one
      obtain ⟨k, hk, hstarts⟩ := hequal.mp hsome
      obtain ⟨hcovers, hne⟩ := covers_of_startsWith hslash hstarts
      exact not_holds_of_covers hp hcovers hne hk
    · have hnone : ¬ ∃ k, s.Holds k ∧ startsWith k.text p.text = true :=
        fun ht => hsome (hequal.mpr ht)
      refine Or.inr ⟨fun k hk => ⟨fun hc => hsome ⟨k, hk, hc⟩, fun ht => hnone ⟨k, hk, ht⟩⟩, ?_⟩
      exact fun hdir => hnone (hlocal.mp (Or.inr hdir))
  · rintro (⟨⟨k, hk, hcovers⟩, hslash⟩ | ⟨hnone, hempty⟩)
    · have hstarts : ∃ k, s.Holds k ∧ startsWith k.text p.text = true :=
        ⟨k, hk, startsWith_of_holds hslash hk hcovers⟩
      exact ⟨iff_of_true (present_of_covers hk hcovers) hstarts,
        iff_of_true ⟨k, hk, hcovers⟩ hstarts⟩
    · have hstarts : ¬ ∃ k, s.Holds k ∧ startsWith k.text p.text = true := by
        rintro ⟨k, hk, ht⟩
        exact (hnone k hk).2 ht
      have hcovered : ¬ ∃ k, s.Holds k ∧ p.Covers k := by
        rintro ⟨k, hk, hc⟩
        exact (hnone k hk).1 hc
      refine ⟨iff_of_false ?_ hstarts, iff_of_false hcovered hstarts⟩
      rintro (hfile | hdir)
      · exact (hnone p.key hfile).1 (List.prefix_refl _)
      · exact hempty hdir

/-- A deletion leaves the local files that its prefix does not cover. -/
theorem file?_deletePrefix (q : TreePath) :
    (s.files.step (.deletePrefix p.text)).2.tree.file? q =
      if p.key.path <+: q then none else s.files.tree.file? q := by
  rw [LocalStore.step, withPath_prefixText]
  by_cases hfile : s.files.tree.isFile p.key.path = true
  · rw [if_pos hfile]
    by_cases heq : q = p.key.path
    · rw [FileTree.file?_unlink, if_pos heq, if_pos (heq ▸ List.prefix_refl _)]
    · rw [FileTree.file?_unlink, if_neg heq]
      split_ifs with hunder
      · have hbelow := FileTree.not_isFile_of_above hfile hunder (Ne.symm heq)
        simpa [FileTree.isFile] using hbelow
      · rfl
  · rw [if_neg hfile]
    by_cases hdir : s.files.tree.isDir p.key.path = true
    · rw [if_pos hdir, FileTree.file?_rmtree]
    · rw [if_neg hdir]
      split_ifs with hunder
      · have hnone : s.files.tree.isFile q = false := by
          rw [Bool.eq_false_iff]
          intro hq
          by_cases heq : p.key.path = q
          · exact hfile (heq ▸ hq)
          · exact hdir (FileTree.isDir_of_above hq hunder heq)
        simpa [FileTree.isFile] using hnone
      · rfl

theorem answer_deletePrefix : (s.files.step (.deletePrefix p.text)).1 = .ok .done := by
  rw [LocalStore.step, withPath_prefixText]
  split_ifs <;> rfl

theorem memory_deletePrefix (k : Key) :
    (s.memory.step (.deletePrefix p.text)).2.objects.get? k.text =
      if p.key.path <+: k.path then none else s.memory.objects.get? k.text := by
  rw [InMemoryStore.step, lstripSlash_prefixText]
  simp only [get?_eraseAll_filter, prefixMatches_iff, Prefix.Covers]

theorem s3_deletePrefix (k : Key) :
    (s.s3.step (.deletePrefix p.text)).2.objects.get? k.text =
      if startsWith k.text p.text = true then none else s.s3.objects.get? k.text := by
  rw [S3Store.step]
  exact get?_eraseAll_filter _ _ _

theorem deletePrefix_agrees_iff (h : s.Same) :
    s.Agrees (.deletePrefix p) ↔ s.Clear (.deletePrefix p) := by
  have hnone {k : Key} (hk : ¬ s.Holds k) : s.files.tree.file? k.path = none := by
    simpa [Holds, FileTree.isFile] using hk
  constructor
  · intro hagrees
    have hsame (k : Key) : (if startsWith k.text p.text = true then none
        else s.files.tree.file? k.path) =
        if p.key.path <+: k.path then none else s.files.tree.file? k.path := by
      rw [← h.s3 k, ← s3_deletePrefix, h.s3 k, ← file?_deletePrefix]
      exact hagrees.same.s3 k
    constructor
    · rintro ⟨hslash, hp⟩
      have hkey := hsame p.key
      have hstarts : ¬ startsWith p.key.text p.text = true :=
        fun hs => (covers_of_startsWith hslash hs).2 rfl
      rw [if_neg hstarts, if_pos (List.prefix_refl _)] at hkey
      simp [Holds, FileTree.isFile, hkey] at hp
    · intro k hk hstarts
      by_contra hcovers
      have hkey := hsame k
      rw [if_pos hstarts, if_neg (show ¬ p.key.path <+: k.path from hcovers)] at hkey
      simp [Holds, FileTree.isFile, ← hkey] at hk
  · rintro ⟨hslash, hcovers⟩
    have hs3 (k : Key) : (s.s3.step (.deletePrefix p.text)).2.objects.get? k.text =
        if p.key.path <+: k.path then none else s.files.tree.file? k.path := by
      rw [s3_deletePrefix, h.s3 k]
      by_cases hk : s.Holds k
      · have hiff : startsWith k.text p.text = true ↔ p.key.path <+: k.path :=
          ⟨hcovers k hk, startsWith_of_holds hslash hk⟩
        simp only [hiff]
      · rw [hnone hk, ite_self, ite_self]
    refine ⟨answer_deletePrefix, rfl, ⟨?_, ?_⟩, ?_⟩
    · intro k
      exact (hs3 k).trans (file?_deletePrefix k.path).symm
    · intro k
      refine (memory_deletePrefix k).trans ?_
      rw [h.memory k]
      exact (file?_deletePrefix k.path).symm
    · rintro p' hp k hk
      obtain rfl := PathCall.deletePrefix.inj hp
      refine ⟨?_, ?_, ?_⟩
      · exact (hs3 k).trans ((if_neg hk).trans (h.s3 k).symm)
      · exact (file?_deletePrefix k.path).trans (if_neg hk)
      · exact (memory_deletePrefix k).trans (if_neg hk)

theorem agrees_iff (h : s.Same) (hproper : s.Proper) (c : PathCall B) :
    s.Agrees c ↔ s.Clear c := by
  cases c with
  | writeBytes k payload => exact writeBytes_agrees_iff h
  | readBytes k => exact readBytes_agrees_iff h
  | exists_ k => exact exists_agrees_iff h
  | hasPrefix p => exact hasPrefix_agrees_iff h hproper
  | deletePrefix p => exact deletePrefix_agrees_iff h

end Calls

section Runs

theorem contains_of_set {objects : Dict B} {key key' : String}
    (h : (objects.set key payload).contains key' = true) :
    objects.contains key' = true ∨ key = key' := by
  obtain ⟨entry, hentry, rfl⟩ := (Dict.contains_iff _ _).mp h
  refine (Dict.key_of_mem_set hentry).imp (fun hold => ?_) Eq.symm
  exact (Dict.contains_iff _ _).mpr ⟨entry, hold, rfl⟩

theorem contains_of_eraseAll {objects : Dict B} {keys : List String} {key : String}
    (h : (objects.eraseAll keys).contains key = true) : objects.contains key = true := by
  obtain ⟨entry, hentry, rfl⟩ := (Dict.contains_iff _ _).mp h
  exact (Dict.contains_iff _ _).mpr ⟨entry, List.mem_of_mem_filter hentry, rfl⟩

/-- A call adds no key but the one that it writes. -/
theorem contains_of_step_s3 {c : PathCall B} {key : String}
    (h : (s.step c).s3.objects.contains key = true) :
    s.s3.objects.contains key = true ∨ ∃ k : Key, k.text = key := by
  cases c with
  | writeBytes k payload => exact (contains_of_set h).imp_right fun heq => ⟨k, heq⟩
  | readBytes k =>
      left
      simp only [step, PathCall.call, S3Store.step] at h
      split at h <;> exact h
  | exists_ k => exact Or.inl h
  | hasPrefix p => exact Or.inl h
  | deletePrefix p => exact Or.inl (contains_of_eraseAll h)

theorem contains_of_step_memory {c : PathCall B} {key : String}
    (h : (s.step c).memory.objects.contains key = true) :
    s.memory.objects.contains key = true ∨ ∃ k : Key, k.text = key := by
  cases c with
  | writeBytes k payload =>
      simp only [step, PathCall.call, InMemoryStore.step, withKey_key] at h
      exact (contains_of_set h).imp_right fun heq => ⟨k, heq⟩
  | readBytes k =>
      left
      simp only [step, PathCall.call, InMemoryStore.step, withKey_key] at h
      split at h <;> exact h
  | exists_ k =>
      simp only [step, PathCall.call, InMemoryStore.step, withKey_key] at h
      exact Or.inl h
  | hasPrefix p => exact Or.inl h
  | deletePrefix p => exact Or.inl (contains_of_eraseAll h)

theorem isFile_of_step {c : PathCall B} {path : TreePath}
    (h : (s.step c).files.tree.isFile path = true) :
    s.files.tree.isFile path = true ∨ ∃ k : Key, k.path = path := by
  cases c with
  | writeBytes k payload =>
      simp only [step, PathCall.call, LocalStore.step, withPath_key] at h
      by_cases hfree : s.files.tree.Free k.path
      · simp only [FileTree.write_of_free hfree, FileTree.isFile, FileTree.file?_withFile] at h
        by_cases heq : path = k.path
        · exact Or.inr ⟨k, heq.symm⟩
        · rw [if_neg heq] at h
          exact Or.inl h
      · obtain ⟨e, he⟩ := FileTree.write_of_not_free (b := payload) hfree
        rw [he] at h
        exact Or.inl h
  | readBytes k =>
      left
      simp only [step, PathCall.call, LocalStore.step, withPath_key] at h
      split at h <;> exact h
  | exists_ k =>
      simp only [step, PathCall.call, LocalStore.step, withPath_key] at h
      exact Or.inl h
  | hasPrefix p =>
      simp only [step, PathCall.call, LocalStore.step, withPath_prefixText] at h
      exact Or.inl h
  | deletePrefix p =>
      simp only [step, PathCall.call, FileTree.isFile, file?_deletePrefix] at h
      split_ifs at h
      · cases h
      · exact Or.inl h

theorem Proper.step (h : s.Proper) (c : PathCall B) : (s.step c).Proper := by
  constructor
  · exact fun key hkey => (contains_of_step_s3 hkey).elim (h.s3 key) id
  · exact fun path hpath => (isFile_of_step hpath).elim (h.files path) id
  · exact fun key hkey => (contains_of_step_memory hkey).elim (h.memory key) id

theorem start_same (root : TreePath) (present : Bool) : (start (B := B) root present).Same :=
  ⟨fun _ => rfl, fun _ => rfl⟩

theorem start_proper (root : TreePath) (present : Bool) : (start (B := B) root present).Proper := by
  constructor
  · exact fun key h => by simp [start, Dict.contains] at h
  · exact fun path h => by simp [start, FileTree.empty, FileTree.isFile, FileTree.file?] at h
  · exact fun key h => by simp [start, Dict.contains] at h

theorem runAgrees_iff_of_same (h : s.Same) (hproper : s.Proper) (calls : List (PathCall B)) :
    s.RunAgrees calls ↔ s.RunClear calls := by
  induction calls generalizing s with
  | nil => exact Iff.rfl
  | cons c calls ih =>
      rw [RunAgrees, RunClear, ← agrees_iff h hproper c]
      exact and_congr_right fun hagrees => ih hagrees.same (hproper.step c)

/-- From empty stores the adapters agree in every call of a run exactly when every call is
clear in the state before it. -/
theorem runAgrees_iff (root : TreePath) (present : Bool) (calls : List (PathCall B)) :
    (start root present).RunAgrees calls ↔ (start root present).RunClear calls :=
  runAgrees_iff_of_same (start_same root present) (start_proper root present) calls

def jobsSegment : Segment := ⟨"jobs".toList, by decide, by decide, by decide, by decide, by decide⟩

def audioSegment : Segment :=
  ⟨"audio".toList, by decide, by decide, by decide, by decide, by decide⟩

/-- The segment of a job, named by a digit repeated. -/
def jobSegment (n : Nat) : Segment where
  chars := List.replicate (n + 1) '1'
  ne_nil := by simp
  no_slash := by simp
  no_null := by simp
  ne_dot := by cases n <;> simp [List.replicate]
  ne_dots := by cases n <;> simp [List.replicate]

def audioKey (n : Nat) : Key := ⟨[jobsSegment, jobSegment n, audioSegment], by simp⟩

/-- Without a slash the bucket loses the artifacts of a job whose name goes on with the name of
the deleted one. -/
theorem other_job_deleted : ¬ (start [] true).RunAgrees [.writeBytes (audioKey 0) 1,
    .writeBytes (audioKey 1) 2, .deletePrefix ⟨⟨[jobsSegment, jobSegment 0], by simp⟩, false⟩] := by
  rintro ⟨-, -, hdelete, -⟩
  have hkept := (hdelete.others _ rfl (audioKey 1) (by
    rw [Prefix.Covers]
    decide)).s3
  revert hkept
  decide +kernel

end Runs

end Stores

end Agreement

end Dalston.Gateway.ArtifactStores
