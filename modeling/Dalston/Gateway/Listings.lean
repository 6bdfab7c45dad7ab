import Dalston.Foundation.Keyset
import Dalston.Gateway.Cursors

/-!
# Listings with cursors

Jobs, realtime sessions and webhook deliveries are listed in pages, by their creation time and
their identifier. A query asks for one row more than the page holds to learn whether more
follow, and the endpoint then returns a cursor for the last row of the page.

## Implementation notes

A table is not changed while a client follows the cursors of a listing. Ownership has been
resolved to the filters of a query, and rows have the columns that the queries read. PostgreSQL
compares instants. SQLite compares texts, in which the default of a column leaves out the fraction
of a second that SQLAlchemy writes for the times that the program binds.
-/

namespace Dalston.Gateway.Listings

open Foundation Model Cursors

/-- The order of the creation times. -/
inductive SortOrder
  | asc | desc

/-- A page size that the endpoints accept. -/
structure PageSize where
  limit : Nat
  one_le : 1 ≤ limit
  le_hundred : limit ≤ 100

section Columns

/-- A column of times: what is stored of a row's time, what a bound time is compared as, and what
is read back of a row's time. -/
structure Column where
  Value : Type
  order : LinearOrder Value
  stored : Timestamp → Value
  bound : Timestamp → Value
  read : Timestamp → Timestamp
  stored_lt : ∀ t t', stored t < stored t' ↔ read t < read t'

instance (column : Column) : LinearOrder column.Value := column.order

theorem Column.stored_eq (column : Column) (t t' : Timestamp) :
    column.stored t = column.stored t' ↔ column.read t = column.read t' := by
  have hlt := column.stored_lt t t'
  have hgt := column.stored_lt t' t
  rw [eq_iff_le_not_lt, eq_iff_le_not_lt, ← not_lt, ← not_lt, hlt, hgt]

/-- A time in PostgreSQL. -/
def instants : Column := ⟨Timestamp, inferInstance, id, id, id, fun _ _ => Iff.rfl⟩

/-- A time that the program writes to SQLite. -/
def boundTexts : Column :=
  ⟨List Char, inferInstance, sqliteText true, sqliteText true, id, sqliteText_true_lt_iff⟩

/-- A time that is the default of its column in SQLite. -/
def defaultTexts : Column :=
  ⟨List Char, inferInstance, sqliteText false, sqliteText true, wholeSecond,
    sqliteText_false_lt_iff⟩

/-- The database of the distributed mode, or of the lite mode. -/
inductive Database
  | postgresql | sqlite
  deriving DecidableEq

namespace Database

/-- The zone of the timestamps that the database returns. -/
def zone : Database → Zone
  | postgresql => .utc
  | sqlite => .naive

/-- `server_default=func.now()`. -/
def defaulted : Database → Column
  | postgresql => instants
  | sqlite => defaultTexts

/-- A column whose times the program assigns. -/
def assigned : Database → Column
  | postgresql => instants
  | sqlite => boundTexts

end Database

end Columns

section Queries

variable {R : Type} {id : R → RowId}

/-- The `where` clause of a cursor. -/
def afterCursor (column : Column) (createdAt : R → Timestamp) (id : R → RowId) (c : Cursor)
    (r : R) : SortOrder → Bool
  | .asc => decide (column.stored (createdAt r) > column.bound c.createdAt ∨
      column.stored (createdAt r) = column.bound c.createdAt ∧ id r > c.id)
  | .desc => decide (column.stored (createdAt r) < column.bound c.createdAt ∨
      column.stored (createdAt r) = column.bound c.createdAt ∧ id r < c.id)

/-- The `order_by` clause. -/
def orderBy (column : Column) (createdAt : R → Timestamp) (id : R → RowId) :
    SortOrder → R → R → Prop
  | .asc => fun r r' => column.stored (createdAt r) < column.stored (createdAt r') ∨
      column.stored (createdAt r) = column.stored (createdAt r') ∧ id r ≤ id r'
  | .desc => fun r r' => column.stored (createdAt r') < column.stored (createdAt r) ∨
      column.stored (createdAt r') = column.stored (createdAt r) ∧ id r' ≤ id r

instance (column : Column) (createdAt : R → Timestamp) (id : R → RowId) (sort : SortOrder) :
    DecidableRel (orderBy column createdAt id sort) := by
  cases sort
  · exact fun r r' => inferInstanceAs (Decidable (_ ∨ _))
  · exact fun r r' => inferInstanceAs (Decidable (_ ∨ _))

/-- The rows that the filters let through, in order. -/
def sortedRows (t : Table id) (column : Column) (createdAt : R → Timestamp) (filters : R → Bool)
    (sort : SortOrder) : List R :=
  (t.rows.filter filters).insertionSort (orderBy column createdAt id sort)

/-- The position of the cursor of a request, if it has one. -/
def readCursor : Option String → Except CursorError (Option Cursor)
  | none => .ok none
  | some text => if text = "" then .ok none else (decodeCursor text).map some

/-- The rows of a page and whether there are more. -/
def listRows (t : Table id) (column : Column) (createdAt : R → Timestamp) (filters : R → Bool)
    (sort : SortOrder) (limit : Nat) (cursor : Option String) :
    Except CursorError (List R × Bool) :=
  (readCursor cursor).map fun position =>
    let query := fun r =>
      filters r && position.all fun c => afterCursor column createdAt id c r sort
    let rows := (sortedRows t column createdAt query sort).take (limit + 1)
    if limit < rows.length then (rows.take limit, true) else (rows, false)

/-- The rows of a reply and the cursor of its last row. -/
def withNextCursor (encode : R → String) (answer : Except CursorError (List R × Bool)) :
    Except CursorError (List R × Option String) :=
  answer.map fun (rows, hasMore) =>
    (rows, if hasMore then rows.getLast?.map encode else none)

/-- The filter of the optional ownership. -/
def ownedBy (createdByKeyId : Option RowId) (includeUnowned : Bool) (owner : Option RowId) : Bool :=
  match createdByKeyId with
  | none => true
  | some key => if includeUnowned then owner = some key || owner.isNone else owner = some key

end Queries

section Jobs

structure JobModel where
  id : RowId
  tenantId : RowId
  status : JobStatus
  createdAt : Timestamp
  createdByKeyId : Option RowId

/-- The filters of `list_jobs`. -/
structure JobQuery where
  tenantId : RowId
  status : Option JobStatus
  createdByKeyId : Option RowId
  includeUnowned : Bool
  since : Option Timestamp

def JobQuery.selects (query : JobQuery) (db : Database) (job : JobModel) : Bool :=
  job.tenantId = query.tenantId && query.status.all (job.status = ·) &&
    query.since.all (fun since => db.defaulted.stored job.createdAt ≥ db.defaulted.bound since) &&
    ownedBy query.createdByKeyId query.includeUnowned job.createdByKeyId

def listJobs (db : Database) (jobs : Table JobModel.id) (query : JobQuery) (limit : Nat)
    (cursor : Option String) : Except CursorError (List JobModel × Bool) :=
  listRows jobs db.defaulted JobModel.createdAt (query.selects db) .desc limit cursor

def encodeJobCursor (db : Database) (job : JobModel) : String :=
  encodeCursor db.zone (db.defaulted.read job.createdAt) job.id

def listTranscriptions (db : Database) (jobs : Table JobModel.id) (query : JobQuery)
    (size : PageSize) (cursor : Option String) :
    Except CursorError (List JobModel × Option String) :=
  withNextCursor (encodeJobCursor db) (listJobs db jobs query size.limit cursor)

end Jobs

section Sessions

structure RealtimeSessionModel where
  id : RowId
  tenantId : RowId
  status : String
  startedAt : Timestamp
  createdByKeyId : Option RowId

/-- The filters of `list_sessions`. -/
structure SessionQuery where
  tenantId : RowId
  status : Option String
  since : Option Timestamp
  until_ : Option Timestamp
  createdByKeyId : Option RowId
  includeUnowned : Bool

/-- A status that is empty is no filter. -/
def SessionQuery.selects (query : SessionQuery) (db : Database) (session : RealtimeSessionModel) :
    Bool :=
  session.tenantId = query.tenantId &&
    query.status.all (fun status => status = "" || session.status = status) &&
    query.since.all (fun since => db.assigned.stored session.startedAt ≥ db.assigned.bound since) &&
    query.until_.all (fun until_ =>
      db.assigned.stored session.startedAt ≤ db.assigned.bound until_) &&
    ownedBy query.createdByKeyId query.includeUnowned session.createdByKeyId

def listSessions (db : Database) (sessions : Table RealtimeSessionModel.id) (query : SessionQuery)
    (sort : SortOrder) (limit : Nat) (cursor : Option String) :
    Except CursorError (List RealtimeSessionModel × Bool) :=
  listRows sessions db.assigned RealtimeSessionModel.startedAt (query.selects db) sort limit cursor

def encodeSessionCursor (db : Database) (session : RealtimeSessionModel) : String :=
  encodeCursor db.zone (db.assigned.read session.startedAt) session.id

def listRealtimeSessions (db : Database) (sessions : Table RealtimeSessionModel.id)
    (query : SessionQuery) (sort : SortOrder) (size : PageSize) (cursor : Option String) :
    Except CursorError (List RealtimeSessionModel × Option String) :=
  withNextCursor (encodeSessionCursor db) (listSessions db sessions query sort size.limit cursor)

end Sessions

section Deliveries

structure WebhookEndpointModel where
  id : RowId
  tenantId : RowId

structure WebhookDeliveryModel where
  id : RowId
  endpointId : Option RowId
  status : String
  createdAt : Timestamp

/-- The filters of `list_deliveries`. -/
structure DeliveryQuery where
  endpointId : RowId
  tenantId : RowId
  status : Option String

/-- `get_endpoint` finds the endpoint of the tenant. -/
def DeliveryQuery.ofTenant (query : DeliveryQuery)
    (endpoints : Table WebhookEndpointModel.id) : Bool :=
  endpoints.rows.any fun e => e.id = query.endpointId && e.tenantId = query.tenantId

def DeliveryQuery.selects (query : DeliveryQuery) (delivery : WebhookDeliveryModel) : Bool :=
  delivery.endpointId = some query.endpointId && query.status.all (delivery.status = ·)

def listDeliveries (db : Database) (endpoints : Table WebhookEndpointModel.id)
    (deliveries : Table WebhookDeliveryModel.id) (query : DeliveryQuery) (sort : SortOrder)
    (limit : Nat) (cursor : Option String) :
    Except CursorError (List WebhookDeliveryModel × Bool) :=
  if query.ofTenant endpoints then
    listRows deliveries db.defaulted WebhookDeliveryModel.createdAt query.selects sort limit cursor
  else .ok ([], false)

def encodeDeliveryCursor (db : Database) (delivery : WebhookDeliveryModel) : String :=
  encodeCursor db.zone (db.defaulted.read delivery.createdAt) delivery.id

def listWebhookDeliveries (db : Database) (endpoints : Table WebhookEndpointModel.id)
    (deliveries : Table WebhookDeliveryModel.id) (query : DeliveryQuery) (sort : SortOrder)
    (size : PageSize) (cursor : Option String) :
    Except CursorError (List WebhookDeliveryModel × Option String) :=
  withNextCursor (encodeDeliveryCursor db)
    (listDeliveries db endpoints deliveries query sort size.limit cursor)

end Deliveries

section Enumeration

variable {R : Type} {id : R → RowId} {createdAt : R → Timestamp}

/-- One row strictly before another. -/
def precedes (createdAt : R → Timestamp) (id : R → RowId) : SortOrder → R → R → Prop
  | .asc => fun r r' => createdAt r < createdAt r' ∨ createdAt r = createdAt r' ∧ id r < id r'
  | .desc => fun r r' => createdAt r' < createdAt r ∨ createdAt r' = createdAt r ∧ id r' < id r

/-- Following the cursors of a listing from its first page ends, and shows exactly the rows
that match, in a strict order. -/
def Enumerates (listing : Option String → Except CursorError (List R × Option String))
    (before : R → R → Prop) (matching : R → Prop) : Prop :=
  ∃ rows, (∀ fuel > rows.length,
      follow (fun cursor => (listing cursor).toOption) fuel none = some rows) ∧
    rows.Pairwise before ∧ ∀ r, r ∈ rows ↔ matching r

/-- Where times are compared without their fraction with ones that have it: newest first all rows
are on one page, oldest first no page ends between two rows of one second. -/
def Paged (createdAt : R → Timestamp) (limit : Nat) (rows : List R) : SortOrder → Prop
  | .asc => ∀ k, ∀ r ∈ rows[(k + 1) * limit - 1]?, ∀ x ∈ rows[(k + 1) * limit]?,
      wholeSecond (createdAt r) ≠ wholeSecond (createdAt x)
  | .desc => rows.length ≤ limit

section Positions

variable {column : Column} {P : Type} [LinearOrder P] {sort : SortOrder} {position : R → P}
  {place : P → Timestamp × RowId}

/-- The cursor that names a position. -/
def cursorOf (zone : Zone) (place : P → Timestamp × RowId) (k : P) : Cursor :=
  ⟨(place k).1, zone, (place k).2⟩

/-- A row that the cursor of a position lets through; the zone does not matter. -/
def beyondCursor (column : Column) (createdAt : R → Timestamp) (id : R → RowId) (sort : SortOrder)
    (place : P → Timestamp × RowId) (k : P) (r : R) : Bool :=
  afterCursor column createdAt id (cursorOf .naive place k) r sort

/-- Positions in a linear order that say what a direction says. -/
structure Places (column : Column) (createdAt : R → Timestamp) (id : R → RowId)
    (sort : SortOrder) (position : R → P) (place : P → Timestamp × RowId) : Prop where
  place_position : ∀ r, place (position r) = (column.read (createdAt r), id r)
  orderBy : ∀ r r', orderBy column createdAt id sort r r' ↔ position r ≤ position r'
  precedes : ∀ r r', position r < position r' ↔
    precedes (fun r => column.read (createdAt r)) id sort r r'
  upward : Upward position (beyondCursor column createdAt id sort place)

theorem places_asc :
    Places column createdAt id .asc (fun r => toLex (column.read (createdAt r), id r)) ofLex where
  place_position _ := rfl
  orderBy r r' := by
    simp only [orderBy, column.stored_lt, column.stored_eq, Prod.Lex.toLex_le_toLex]
  precedes r r' := by simp only [precedes, Prod.Lex.toLex_lt_toLex]
  upward := by
    intro k r x hlt hr
    simp only [Prod.Lex.toLex_lt_toLex, ← column.stored_lt, ← column.stored_eq] at hlt
    simp only [beyondCursor, afterCursor, decide_eq_true_eq, gt_iff_lt] at hr ⊢
    grind

theorem places_desc : Places column createdAt id .desc
    (fun r => OrderDual.toDual (toLex (column.read (createdAt r), id r)))
    fun k => ofLex (OrderDual.ofDual k) where
  place_position _ := rfl
  orderBy r r' := by
    simp only [orderBy, column.stored_lt, column.stored_eq, OrderDual.toDual_le_toDual,
      Prod.Lex.toLex_le_toLex]
  precedes r r' := by
    simp only [precedes, OrderDual.toDual_lt_toDual, Prod.Lex.toLex_lt_toLex]
  upward := by
    intro k r x hlt hr
    simp only [OrderDual.toDual_lt_toDual, Prod.Lex.toLex_lt_toLex, ← column.stored_lt,
      ← column.stored_eq] at hlt
    simp only [beyondCursor, afterCursor, decide_eq_true_eq] at hr ⊢
    grind

variable {t : Table id} {filters : R → Bool} {limit : Nat}

theorem insertionSort_congr {A : Type} {r s : A → A → Prop} [DecidableRel r] [DecidableRel s]
    (h : ∀ a b, r a b ↔ s a b) (l : List A) : l.insertionSort r = l.insertionSort s := by
  have heq : r = s := by
    ext a b
    exact h a b
  subst heq
  congr

theorem sortedRows_eq (h : Places column createdAt id sort position place) :
    sortedRows t column createdAt filters sort = t.select filters position :=
  insertionSort_congr h.orderBy _

/-- The text of the cursor at a position. -/
def cursorAt (zone : Zone) (place : P → Timestamp × RowId) (k : P) : String :=
  encodeCursor zone (place k).1 (place k).2

omit [LinearOrder P] in
theorem readCursor_cursorAt (zone : Zone) (after : Option P) :
    readCursor (after.map (cursorAt zone place)) = .ok (after.map (cursorOf zone place)) := by
  cases after with
  | none => rfl
  | some k =>
      simp only [Option.map_some, readCursor, cursorAt, if_neg (encodeCursor_ne_empty _ _ _),
        decodeCursor_encodeCursor, Except.map, cursorOf]

/-- A request with the cursor at a position answers the page after it. -/
theorem listRows_cursorAt (h : Places column createdAt id sort position place) (zone : Zone)
    (after : Option P) :
    listRows t column createdAt filters sort limit (after.map (cursorAt zone place)) =
      .ok (keysetPage t filters position (beyondCursor column createdAt id sort place) limit
        after) := by
  have hquery (r : R) : (filters r && (after.map (cursorOf zone place)).all fun c =>
      afterCursor column createdAt id c r sort) =
        (filters r && after.all (beyondCursor column createdAt id sort place · r)) := by
    cases after <;> cases sort <;> rfl
  rw [listRows, readCursor_cursorAt, Except.map]
  simp only [hquery, sortedRows_eq h, keysetPage]
  split_ifs with hmore
  · rw [decide_eq_true hmore]
  · rw [decide_eq_false hmore, List.take_of_length_le (not_lt.mp hmore)]

theorem withNextCursor_listRows (h : Places column createdAt id sort position place) (zone : Zone)
    (after : Option P) :
    withNextCursor (fun r => encodeCursor zone (column.read (createdAt r)) (id r))
        (listRows t column createdAt filters sort limit (after.map (cursorAt zone place))) =
      .ok ((keysetFetch t filters position (beyondCursor column createdAt id sort place) limit
          after).1,
        (keysetFetch t filters position (beyondCursor column createdAt id sort place) limit
          after).2.map (cursorAt zone place)) := by
  have hcursor : cursorAt zone place ∘ position =
      fun r => encodeCursor zone (column.read (createdAt r)) (id r) := by
    ext1 r
    simp only [Function.comp_apply, cursorAt, h.place_position]
  rw [listRows_cursorAt h, withNextCursor, Except.map, keysetFetch]
  obtain ⟨rows, hasMore⟩ := keysetPage t filters position
    (beyondCursor column createdAt id sort place) limit after
  cases hasMore with
  | false => rfl
  | true => simp only [if_true, Option.map_map, hcursor]

/-- Following the cursors of the listing is following the positions of its rows. -/
theorem follow_listRows (h : Places column createdAt id sort position place) (zone : Zone)
    (fuel : Nat) :
    follow (fun cursor => (withNextCursor
        (fun r => encodeCursor zone (column.read (createdAt r)) (id r))
        (listRows t column createdAt filters sort limit cursor)).toOption) fuel none =
      follow (fun after => some (keysetFetch t filters position
        (beyondCursor column createdAt id sort place) limit after)) fuel none := by
  refine @follow_map R P String _ _ (cursorAt zone place) (fun cursor => ?_) fuel none
  exact congrArg Except.toOption (withNextCursor_listRows h zone cursor)

/-- The listing enumerates its rows exactly if its pages are parted. -/
theorem enumerates_iff_parted (h : Places column createdAt id sort position place)
    (hposition : ∀ r r', position r = position r' → id r = id r') (hlimit : 0 < limit)
    (zone : Zone) :
    Enumerates (fun cursor => withNextCursor
          (fun r => encodeCursor zone (column.read (createdAt r)) (id r))
          (listRows t column createdAt filters sort limit cursor))
        (precedes (fun r => column.read (createdAt r)) id sort)
        (fun r => r ∈ t.rows ∧ filters r = true) ↔
      Parted position (beyondCursor column createdAt id sort place) limit
        (t.select filters position) := by
  have hsorted := select_pairwise_lt (t := t) (p := filters) hposition
  constructor
  · rintro ⟨rows, hrows, hbefore, hmem⟩
    have hsame : rows = t.select filters position := by
      have hstrict : rows.Pairwise fun r r' => position r < position r' :=
        hbefore.imp (h.precedes _ _).mpr
      have hperm : rows.Perm (t.select filters position) := by
        refine (List.perm_ext_iff_of_nodup (hstrict.imp fun h heq => absurd (heq ▸ h)
          (lt_irrefl _)) (hsorted.imp fun h heq => absurd (heq ▸ h) (lt_irrefl _))).mpr fun r => ?_
        rw [hmem, Table.mem_select]
      exact hperm.eq_of_pairwise (fun r r' _ _ h h' => absurd (h.trans h') (lt_irrefl _)) hstrict
        hsorted
    rw [hsame] at hrows
    exact (follow_keysetFetch_iff hposition h.upward hlimit leaves_none (Nat.lt_succ_self _)).mp
      ((follow_listRows h zone _).symm.trans (hrows _ (Nat.lt_succ_self _)))
  · intro hparted
    refine ⟨t.select filters position, fun fuel hfuel => ?_, ?_, fun r => Table.mem_select⟩
    · exact (follow_listRows h zone fuel).trans
        ((follow_keysetFetch_iff hposition h.upward hlimit leaves_none hfuel).mpr hparted)
    · exact hsorted.imp (h.precedes _ _).mp

omit [LinearOrder P] in
/-- The last row of a page with a next one, and the first row of that, in a list in an order. -/
theorem forall_boundary {order : R → R → Prop} {rows : List R} (hlimit : 0 < limit)
    (hrows : rows.Pairwise order) {k : Nat} {r x : R} (hr : rows[(k + 1) * limit - 1]? = some r)
    (hx : rows[(k + 1) * limit]? = some x) : order r x := by
  obtain ⟨hi, rfl⟩ := List.getElem?_eq_some_iff.mp hr
  obtain ⟨hj, rfl⟩ := List.getElem?_eq_some_iff.mp hx
  have hpos : 0 < (k + 1) * limit := Nat.mul_pos k.succ_pos hlimit
  exact List.pairwise_iff_getElem.mp hrows _ _ hi hj (by omega)

/-- Pages are parted where bound times compare as the stored ones. -/
theorem parted_of_exact (h : Places column createdAt id sort position place)
    (hexact : ∀ t, column.bound (column.read t) = column.stored t) (hlimit : 0 < limit)
    {rows : List R} (hrows : rows.Pairwise fun r r' => position r < position r') :
    Parted position (beyondCursor column createdAt id sort place) limit rows := by
  have hbeyond (r x : R) : beyondCursor column createdAt id sort place (position r) x = true ↔
      position r < position x := by
    rw [h.precedes]
    simp only [beyondCursor, afterCursor, cursorOf, h.place_position, hexact]
    cases sort with
    | asc =>
        simp only [precedes, decide_eq_true_eq, gt_iff_lt, column.stored_lt, column.stored_eq,
          @eq_comm _ (column.read (createdAt x))]
    | desc => simp only [precedes, decide_eq_true_eq, column.stored_lt, column.stored_eq]
  intro k r hr x hx
  refine ⟨(hbeyond r x).mpr (forall_boundary hlimit hrows hr hx), ?_⟩
  rw [Bool.eq_false_iff, Ne, hbeyond]
  exact lt_irrefl _

/-- With the default times of SQLite the cursor of a row is behind its whole second. -/
theorem beyondCursor_default (h : Places defaultTexts createdAt id sort position place) (r x : R) :
    beyondCursor defaultTexts createdAt id sort place (position r) x = match sort with
      | .asc => decide (wholeSecond (createdAt r) < wholeSecond (createdAt x))
      | .desc => decide (wholeSecond (createdAt x) ≤ wholeSecond (createdAt r)) := by
  have hne := sqliteText_mixed_ne (createdAt x) (wholeSecond (createdAt r))
  have hlt := sqliteText_mixed_lt_iff (createdAt x) (createdAt r)
  have hplace : (place (position r)).1 = wholeSecond (createdAt r) :=
    congrArg Prod.fst (h.place_position r)
  cases sort with
  | asc =>
      rw [beyondCursor, afterCursor, cursorOf, hplace, decide_eq_decide]
      exact (or_iff_left fun heq => hne heq.1).trans hlt
  | desc =>
      rw [beyondCursor, afterCursor, cursorOf, hplace, decide_eq_decide, ← not_lt, ← hlt]
      exact (or_iff_left fun heq => hne heq.1).trans
        ⟨fun h => lt_asymm h, fun h => (not_lt.mp h).lt_of_ne hne⟩

/-- With the default times of SQLite the pages are parted exactly if no page ends within a second
and, newest first, there is one page only. -/
theorem parted_default_iff (h : Places defaultTexts createdAt id sort position place)
    (hlimit : 0 < limit) {rows : List R}
    (hrows : rows.Pairwise fun r r' => position r < position r') :
    Parted position (beyondCursor defaultTexts createdAt id sort place) limit rows ↔
      Paged createdAt limit rows sort := by
  cases sort with
  | asc =>
      simp only [Parted, beyondCursor_default h, Paged, lt_self_iff_false, decide_false,
        and_true, decide_eq_true_eq]
      refine forall_congr' fun k => forall₂_congr fun r hr => forall₂_congr fun x hx => ?_
      have hbefore := (h.precedes _ _).mp (forall_boundary hlimit hrows hr hx)
      constructor
      · exact fun hlt => hlt.ne
      · intro hne
        rcases hbefore with hlt | ⟨heq, -⟩
        · exact hlt
        · exact absurd heq hne
  | desc =>
      refine ⟨fun hparted => ?_, parted_of_length_le⟩
      by_contra hmore
      obtain ⟨shown, r, x, behind, hlen, rfl⟩ := exists_page hlimit (not_le.mp hmore)
      have hparts := ((parted_iff hlen).mp hparted).1.2
      rw [beyondCursor_default h] at hparts
      simp at hparts

end Positions

/-- A table with exact times is enumerated in both directions. -/
theorem listRows_enumerates (t : Table id) {column : Column}
    (hexact : ∀ t, column.bound (column.read t) = column.stored t) (createdAt : R → Timestamp)
    (filters : R → Bool) (sort : SortOrder) {limit : Nat} (hlimit : 0 < limit) (zone : Zone) :
    Enumerates (fun cursor => withNextCursor
        (fun r => encodeCursor zone (column.read (createdAt r)) (id r))
        (listRows t column createdAt filters sort limit cursor))
      (precedes (fun r => column.read (createdAt r)) id sort)
      (fun r => r ∈ t.rows ∧ filters r = true) := by
  cases sort with
  | asc =>
      refine (enumerates_iff_parted places_asc (fun r r' heq => ?_) hlimit zone).mpr
        (parted_of_exact places_asc hexact hlimit (select_pairwise_lt fun r r' heq => ?_))
      all_goals exact (Prod.mk.inj heq).2
  | desc =>
      refine (enumerates_iff_parted places_desc (fun r r' heq => ?_) hlimit zone).mpr
        (parted_of_exact places_desc hexact hlimit (select_pairwise_lt fun r r' heq => ?_))
      all_goals exact (Prod.mk.inj heq).2

/-- A table with the default times of SQLite is enumerated exactly if its pages are parted. -/
theorem listRows_default_iff (t : Table id) (createdAt : R → Timestamp) (filters : R → Bool)
    (sort : SortOrder) {limit : Nat} (hlimit : 0 < limit) (zone : Zone) :
    Enumerates (fun cursor => withNextCursor
        (fun r => encodeCursor zone (defaultTexts.read (createdAt r)) (id r))
        (listRows t defaultTexts createdAt filters sort limit cursor))
      (precedes (fun r => defaultTexts.read (createdAt r)) id sort)
      (fun r => r ∈ t.rows ∧ filters r = true) ↔
    Paged createdAt limit (sortedRows t defaultTexts createdAt filters sort) sort := by
  cases sort with
  | asc =>
      rw [enumerates_iff_parted places_asc (fun r r' heq => (Prod.mk.inj heq).2) hlimit,
        parted_default_iff places_asc hlimit
          (select_pairwise_lt fun r r' heq => (Prod.mk.inj heq).2), sortedRows_eq places_asc]
  | desc =>
      rw [enumerates_iff_parted places_desc (fun r r' heq => (Prod.mk.inj heq).2) hlimit,
        parted_default_iff places_desc hlimit
          (select_pairwise_lt fun r r' heq => (Prod.mk.inj heq).2), sortedRows_eq places_desc]

/-- A table with default times is enumerated by PostgreSQL, and by SQLite if its pages are
parted. -/
theorem listRows_defaulted_iff (db : Database) (t : Table id) (createdAt : R → Timestamp)
    (filters : R → Bool) (sort : SortOrder) {limit : Nat} (hlimit : 0 < limit) :
    Enumerates (fun cursor => withNextCursor
        (fun r => encodeCursor db.zone (db.defaulted.read (createdAt r)) (id r))
        (listRows t db.defaulted createdAt filters sort limit cursor))
      (precedes (fun r => db.defaulted.read (createdAt r)) id sort)
      (fun r => r ∈ t.rows ∧ filters r = true) ↔
    db = .postgresql ∨
      Paged createdAt limit (sortedRows t db.defaulted createdAt filters sort) sort := by
  cases db with
  | postgresql =>
      exact iff_of_true (listRows_enumerates t (fun _ => rfl) createdAt filters sort hlimit _)
        (Or.inl rfl)
  | sqlite =>
      rw [or_iff_right (by decide)]
      exact listRows_default_iff t createdAt filters sort hlimit _

/-- Following the cursors of each listing enumerates the matching rows, each once and in order:
sessions always, jobs and deliveries on PostgreSQL, and on SQLite exactly if their pages are parted.
A cursor decodes to the position that it encodes. -/
theorem listings_enumerate (db : Database) (size : PageSize) (sort : SortOrder) :
    (∀ (jobs : Table JobModel.id) (query : JobQuery),
      Enumerates (listTranscriptions db jobs query size)
        (precedes (fun job => db.defaulted.read job.createdAt) JobModel.id .desc)
        (fun job => job ∈ jobs.rows ∧ query.selects db job = true) ↔
      db = .postgresql ∨ Paged JobModel.createdAt size.limit
        (sortedRows jobs db.defaulted JobModel.createdAt (query.selects db) .desc) .desc) ∧
    (∀ (sessions : Table RealtimeSessionModel.id) (query : SessionQuery),
      Enumerates (listRealtimeSessions db sessions query sort size)
        (precedes (fun session => db.assigned.read session.startedAt) RealtimeSessionModel.id sort)
        (fun session => session ∈ sessions.rows ∧ query.selects db session = true)) ∧
    (∀ (endpoints : Table WebhookEndpointModel.id) (deliveries : Table WebhookDeliveryModel.id)
      (query : DeliveryQuery),
      Enumerates (listWebhookDeliveries db endpoints deliveries query sort size)
        (precedes (fun delivery => db.defaulted.read delivery.createdAt) WebhookDeliveryModel.id
          sort)
        (fun delivery => delivery ∈ deliveries.rows ∧ query.ofTenant endpoints = true ∧
          query.selects delivery = true) ↔
      (query.ofTenant endpoints = true → db = .postgresql ∨
        Paged WebhookDeliveryModel.createdAt size.limit
          (sortedRows deliveries db.defaulted WebhookDeliveryModel.createdAt query.selects sort)
          sort)) ∧
    ∀ (createdAt : Timestamp) (id : RowId),
      decodeCursor (encodeCursor db.zone createdAt id) = .ok ⟨createdAt, db.zone, id⟩ := by
  refine ⟨?_, ?_, ?_, decodeCursor_encodeCursor db.zone⟩
  · intro jobs query
    exact listRows_defaulted_iff db jobs JobModel.createdAt (query.selects db) .desc size.one_le
  · intro sessions query
    exact listRows_enumerates sessions (by cases db <;> exact fun _ => rfl)
      RealtimeSessionModel.startedAt (query.selects db) sort size.one_le db.zone
  · intro endpoints deliveries query
    by_cases htenant : query.ofTenant endpoints = true
    · have hsame : listWebhookDeliveries db endpoints deliveries query sort size =
          fun cursor => withNextCursor (encodeDeliveryCursor db) (listRows deliveries
            db.defaulted WebhookDeliveryModel.createdAt query.selects sort size.limit cursor) := by
        ext1 cursor
        rw [listWebhookDeliveries, listDeliveries, if_pos htenant]
      simp only [hsame, htenant, true_and, forall_const]
      exact listRows_defaulted_iff db deliveries WebhookDeliveryModel.createdAt query.selects sort
        size.one_le
    · refine iff_of_true ⟨[], ?_, List.Pairwise.nil, ?_⟩ fun h => absurd h htenant
      · rintro (_ | fuel) hfuel
        · cases hfuel
        · simp only [listWebhookDeliveries, listDeliveries, if_neg htenant]
          rfl
      · simp [htenant]

/-- A job of some second of the first minute of a year. -/
def sampleJob (id : RowId) (createdAt : Timestamp) : JobModel :=
  ⟨id, 0, .completed, createdAt, none⟩

/-- Two jobs, one second apart. -/
def sampleJobs : Table JobModel.id where
  rows :=
    [sampleJob 0 ⟨⟨2026, 1, 1, 0, 0, 1, 0⟩, by decide⟩,
      sampleJob 1 ⟨⟨2026, 1, 1, 0, 0, 2, 0⟩, by decide⟩]
  unique := by decide

def sampleQuery : JobQuery := ⟨0, none, none, false, none⟩

/-- In lite mode the cursor of the newest job answers that job again. -/
theorem lite_page_repeats :
    ((listTranscriptions .sqlite sampleJobs sampleQuery ⟨1, by decide, by decide⟩ none).map
        fun page => (page.1.map (·.id), page.2)).toOption =
      some ([1], some "2026-01-01T00:00:02:00000000-0000-0000-0000-000000000001") ∧
    ((listTranscriptions .sqlite sampleJobs sampleQuery ⟨1, by decide, by decide⟩
        (some "2026-01-01T00:00:02:00000000-0000-0000-0000-000000000001")).map
        fun page => (page.1.map (·.id), page.2)).toOption =
      some ([1], some "2026-01-01T00:00:02:00000000-0000-0000-0000-000000000001") ∧
    ¬ Enumerates (listTranscriptions .sqlite sampleJobs sampleQuery ⟨1, by decide, by decide⟩)
      (precedes (fun job => Database.sqlite.defaulted.read job.createdAt) JobModel.id .desc)
      (fun job => job ∈ sampleJobs.rows ∧ sampleQuery.selects .sqlite job = true) := by
  refine ⟨by decide +kernel, by decide +kernel, fun h => ?_⟩
  have hpaged : (sortedRows sampleJobs defaultTexts JobModel.createdAt
      (sampleQuery.selects .sqlite) .desc).length ≤ 1 :=
    (listRows_default_iff sampleJobs JobModel.createdAt (sampleQuery.selects .sqlite) .desc
      Nat.one_pos .naive).mp h
  exact absurd hpaged (by decide +kernel)

end Enumeration

end Dalston.Gateway.Listings
