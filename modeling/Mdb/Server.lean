import Mdb.Lib.Run
import Mdb.Util

/-!
# The server

`KVServer` hands its calls to a `KVStore`, for now always an `LdbStore`, which hands them to leveldb.
The database is opened by `InitLdbStore`; nothing calls it.

* `Db`: leveldb, taken to be a map whose calls answer `ok` or `NotFound`;
* `LdbStore`, `KVServer`: the two layers above it;
* `ServerRun`, `ServerCall`: calls to a server, beside the map of what was written last;
* `server_is_map`: with an open database in which no key ever holds the empty string the server is
  that map;
* `server_not_map`: `InitKVStore` returns true without opening anything, so that every `Put` fails;
  and in an open database `Get` answers the same for an absent key and for the empty string.
-/

namespace Mdb

open Run

/-- The contents of a `std::string`. -/
abbrev Value := List UInt8

/-! ## leveldb -/

/-- A `leveldb::Status`. -/
inductive LdbStatus where
  | ok
  | notFound
  | failed
  deriving DecidableEq

/-- `leveldb::DB`. -/
abbrev Db := CString → Option Value

/-- `DB::Put`; a `Slice` made of a `char*` ends before the NUL. -/
def Db.put (db : Db) (key value : CString) : LdbStatus × Db :=
  (.ok, Function.update db key (some value.bytes))

/-- `DB::Get`: `*value` is assigned only if the key is there. -/
def Db.get (db : Db) (key : CString) (value : Value) : LdbStatus × Value :=
  match db key with
  | some v => (.ok, v)
  | none => (.notFound, value)

/-- `DB::Delete`; deleting an absent key is no error. -/
def Db.delete (db : Db) (key : CString) : LdbStatus × Db := (.ok, Function.update db key none)

/-! ## `LdbStore` -/

/-- `LdbStore`: its `leveldb::DB*`. -/
structure LdbStore where
  dbPtr : Option Db

namespace LdbStore

variable (st : LdbStore)

/-- The constructor. -/
def new : LdbStore := ⟨none⟩

/-- `CreateDir(path)`; `status` is what `system` returns. -/
def createDir (status : ℤ) : Bool := status ≠ -1

/-- `InitLdbStore(db_path)`; `opened` is what `DB::Open` leaves in `db_ptr_`. -/
def initLdbStore (status : ℤ) (opened : Option Db) : Bool × LdbStore :=
  if createDir status then (opened.isSome, ⟨opened⟩) else (false, st)

/-- `Put(key, value)`. -/
def put (key value : CString) : Bool × LdbStore :=
  match st.dbPtr with
  | none => (false, st)
  | some db =>
    let r := db.put key value
    (r.1 = .ok, ⟨some r.2⟩)

/-- `Get(key, value)`, with the value the caller's string had and the one it gets; `none` is the null
pointer. -/
def get (key : Option CString) (value : Value) : Bool × Value :=
  match key, st.dbPtr with
  | none, _ | some _, none => (false, value)
  | some key, some db =>
    let r := db.get key value
    if r.1 ≠ .notFound ∧ r.1 ≠ .ok then (false, r.2)
    else if r.1 = .notFound then (true, [])
    else (true, r.2)

/-- `Delete(key)`. -/
def delete (key : Option CString) : Bool × LdbStore :=
  match key, st.dbPtr with
  | none, _ | some _, none => (false, st)
  | some key, some db =>
    let r := db.delete key
    (r.1 = .ok, ⟨some r.2⟩)

end LdbStore

/-! ## `KVServer` -/

/-- `KVServer`: its `KVStore*`. -/
structure KVServer where
  kvStorePtr : Option LdbStore

namespace KVServer

variable (srv : KVServer)

/-- The constructor. -/
def new : KVServer := ⟨none⟩

/-- `InitKVStore()`. -/
def initKVStore (_ : KVServer) : Bool × KVServer := (true, ⟨some .new⟩)

/-- `Put(key, value)`. -/
def put (key value : CString) : Bool × KVServer :=
  match srv.kvStorePtr with
  | none => (false, srv)
  | some st => ((st.put key value).1, ⟨some (st.put key value).2⟩)

/-- `Get(key, value)`. -/
def get (key : CString) (value : Value) : Bool × Value :=
  match srv.kvStorePtr with
  | none => (false, value)
  | some st => st.get (some key) value

/-- `Delete(key)`. -/
def delete (key : CString) : Bool × KVServer :=
  match srv.kvStorePtr with
  | none => (false, srv)
  | some st => ((st.delete (some key)).1, ⟨some (st.delete (some key)).2⟩)

end KVServer

/-! ## Runs -/

/-- A server, and the map of what was last written to each key. -/
structure ServerRun where
  server : KVServer
  written : CString → Option Value

/-- A call that may write. -/
inductive ServerCall where
  | put (key value : CString)
  | get (key : CString) (value : Value)
  | delete (key : CString)

/-- What a call leaves behind, and what it should have written. -/
def ServerRun.exec (r : ServerRun) : ServerCall → ServerRun
  | .put key value =>
    ⟨(r.server.put key value).2, Function.update r.written key (some value.bytes)⟩
  | .get _ _ => r
  | .delete key => ⟨(r.server.delete key).2, Function.update r.written key none⟩

/-- **A faithful map**: writes succeed, `Get` delivers what was written last, and what it delivers
tells an absent key apart from a present one. -/
structure ServerRun.Faithful (r : ServerRun) : Prop where
  put : ∀ key value, (r.server.put key value).1 = true
  delete : ∀ key, (r.server.delete key).1 = true
  get : ∀ key value v, r.written key = some v → r.server.get key value = (true, v)
  absent : ∀ key key' value value' v, r.written key = none → r.written key' = some v →
    r.server.get key value ≠ r.server.get key' value'

/-- The server's store has been opened, which leveldb did successfully, and no key holds the empty
string yet. -/
def ServerRun.Opened (r : ServerRun) : Prop :=
  ∃ status st, LdbStore.new.initLdbStore status (some r.written) = (true, st) ∧
    r.server = ⟨some st⟩ ∧ ∀ key, r.written key ≠ some []

/-- **The condition** on a call: the empty string is not stored. -/
def ServerCall.NonEmpty : ServerCall → Prop
  | .put _ value => value.bytes ≠ []
  | .get _ _ | .delete _ => True

/-- A call that meets the condition. -/
def NonEmptyStep (r r' : ServerRun) : Prop := ∃ c : ServerCall, c.NonEmpty ∧ r' = r.exec c

/-- What every such run keeps. -/
structure ServerRun.Open (r : ServerRun) : Prop where
  server : r.server = ⟨some ⟨some r.written⟩⟩
  nonempty : ∀ key, r.written key ≠ some []

theorem ServerRun.Opened.isOpen {r : ServerRun} (h : r.Opened) : r.Open := by
  obtain ⟨status, st, hinit, hs, hne⟩ := h
  unfold LdbStore.initLdbStore at hinit
  split_ifs at hinit with hd
  · cases hinit
    exact ⟨hs, hne⟩
  · exact absurd (congrArg Prod.fst hinit) Bool.false_ne_true

theorem ServerRun.Open.exec {r : ServerRun} (h : r.Open) {c : ServerCall} (hc : c.NonEmpty) :
    (r.exec c).Open := by
  cases c with
  | put key value =>
    refine ⟨?_, fun k => ?_⟩
    · simp [ServerRun.exec, h.server, KVServer.put, LdbStore.put, Db.put]
    · by_cases e : k = key
      · subst e
        have hne : value.bytes ≠ [] := hc
        simpa [ServerRun.exec] using hne
      · simpa [ServerRun.exec, Function.update_of_ne e] using h.nonempty k
  | get key value => exact h
  | delete key =>
    refine ⟨?_, fun k => ?_⟩
    · simp [ServerRun.exec, h.server, KVServer.delete, LdbStore.delete, Db.delete]
    · by_cases e : k = key
      · subst e
        simp [ServerRun.exec]
      · simpa [ServerRun.exec, Function.update_of_ne e] using h.nonempty k

/-- What `Get` answers when the database is open. -/
theorem ServerRun.Open.get {r : ServerRun} (h : r.Open) (key : CString) (value : Value) :
    r.server.get key value = (true, (r.written key).getD []) := by
  simp only [h.server, KVServer.get, LdbStore.get]
  cases hw : r.written key with
  | none => simp [Db.get, hw]
  | some v => simp [Db.get, hw]

theorem ServerRun.Open.faithful {r : ServerRun} (h : r.Open) : r.Faithful where
  put key value := by simp [h.server, KVServer.put, LdbStore.put, Db.put]
  delete key := by simp [h.server, KVServer.delete, LdbStore.delete, Db.delete]
  get key value v hv := by rw [h.get, hv, Option.getD_some]
  absent key key' value value' v hk hk' := by
    rw [h.get, h.get, hk, hk', Option.getD_none, Option.getD_some]
    intro he
    obtain rfl : [] = v := congrArg Prod.snd he
    exact h.nonempty key' hk'

/-- **An open server is a map**: in every state reached from an open database by calls that store no
empty string, every write succeeds and every `Get` tells what was written last. -/
theorem server_is_map {r : ServerRun} (h : Reach ServerRun.Opened NonEmptyStep r) : r.Faithful := by
  have hopen : r.Open := h.invariant (fun _ h0 => h0.isOpen) fun _ _ hi ⟨_, hc, he⟩ => he ▸ hi.exec hc
  exact hopen.faithful

/-- Open and empty. -/
def emptyServer : ServerRun := ⟨⟨some ⟨some fun _ => none⟩⟩, fun _ => none⟩

theorem emptyServer_opened : emptyServer.Opened := ⟨0, _, rfl, rfl, fun _ => (Option.some_ne_none _).symm⟩

/-- The string `"a"`. -/
def CString.a : CString := ⟨[97], by decide⟩

/-- A key is written and read back. -/
theorem server_is_map_put : ∃ r : ServerRun, Reach ServerRun.Opened NonEmptyStep r ∧
    r.written .empty = some [97] ∧ r.Faithful := by
  have h0 : Reach ServerRun.Opened NonEmptyStep emptyServer := .start emptyServer_opened
  have h1 := h0.next ⟨.put .empty .a, List.cons_ne_nil _ _, rfl⟩
  exact ⟨_, h1, rfl, server_is_map h1⟩

/-- **The server as it starts is no map**: `InitKVStore` returns true, yet `Put` and `Delete` return
false and a `Get` after a `Put` fails. With an open database, `Get` answers the same for an absent
key and for one that holds the empty string. -/
theorem server_not_map :
    (KVServer.new.initKVStore.1 = true ∧ (KVServer.new.initKVStore.2.put .a .a).1 = false ∧
      (KVServer.new.initKVStore.2.put .a .a).2.get .a [] = (false, []) ∧
      (KVServer.new.initKVStore.2.delete .a).1 = false) ∧
    ∃ r : ServerRun, r = emptyServer.exec (.put .a .empty) ∧ r.written .a = some [] ∧
      r.written .empty = none ∧ r.server.get .a [] = r.server.get .empty [] :=
  ⟨⟨rfl, rfl, rfl, rfl⟩, _, rfl, rfl, rfl, rfl⟩

end Mdb
