import Msb.Ledger.AuditChain

/-!
# Tamper evidence

Two tables that verify and end in one record hash hold the same rows. The proof goes backwards
from the tip: equal hashes have equal preimages, and the preimage of a row names the hash of the
row before it. The genesis value is the hash of no row, so neither chain is a proper end of the
other.

* `sameRows_of_tip_eq` — two valid chains with one tip agree row by row
* `isPrefix_of_mem_tip` — a valid chain whose tip is a row of another valid chain is a prefix
* `verifyChain_tamper_evident` — the same, of what `verify_chain` returns
-/

namespace Ledger

open Py HashChain

variable {P : Platform}

/-- The rows agree on every field that is hashed, the payloads on the values they parse to. -/
structure SameRow (a b : AuditRow) : Prop where
  component : a.component = b.component
  eventType : a.eventType = b.eventType
  payload : ∃ p q, loads a.payload = .ok p ∧ loads b.payload = .ok q ∧ Same p q
  timestamp : a.timestamp = b.timestamp
  prevHash : a.prevHash = b.prevHash
  recordHash : a.recordHash = b.recordHash

theorem parsed_of_loads {s : Str} {v : PyVal} (h : loads s = .ok v) : Parsed v := by
  unfold loads at h
  split at h
  · next j _ =>
    obtain rfl := Except.ok.inj h
    exact parsed_ofJson j
  · cases h

/-- Verified rows with one hash agree. -/
theorem sameRow_of_hash_eq (hP : Function.Injective P.sha256) {a b : AuditRow}
    (ha : recomputed P a = .ok a.recordHash) (hb : recomputed P b = .ok b.recordHash)
    (h : a.recordHash = b.recordHash) : SameRow a b := by
  obtain ⟨p, hp, hhp⟩ := recomputed_eq_ok.mp ha
  obtain ⟨q, hq, hhq⟩ := recomputed_eq_ok.mp hb
  rw [h] at hhp
  obtain ⟨hprev, hcomp, hev, htree, hts⟩ := computeHash_inj hP hhp hhq
  exact ⟨hcomp, hev, ⟨p, q, hp, hq, same_of_toJson_eq P.keySort p q (parsed_of_loads hp)
    (parsed_of_loads hq) htree⟩, hts, hprev, h⟩

/-- **Two valid chains with one tip agree row by row.** -/
theorem sameRows_of_tip_eq (hP : CollisionFree P) {rows rows' : List AuditRow}
    (h : ValidRows P rows) (h' : ValidRows P rows')
    (htip : tip AuditRow.recordHash genesisHash rows = tip AuditRow.recordHash genesisHash rows') :
    List.Forall₂ SameRow rows rows' :=
  forall₂_of_tip_eq (fun _ _ hab => hab.prevHash)
    (fun a ha b hb => sameRow_of_hash_eq hP.injective (h.hashed a ha) (h'.hashed b hb))
    (h.ne_genesis hP) (h'.ne_genesis hP) h.linked h'.linked htip

/-- **A valid chain whose tip is a row of another valid chain is a prefix of it.** -/
theorem isPrefix_of_mem_tip (hP : CollisionFree P) {rows rows' : List AuditRow}
    (h : ValidRows P rows) (h' : ValidRows P rows') {r : AuditRow} (hr : r ∈ rows')
    (htip : r.recordHash = tip AuditRow.recordHash genesisHash rows) :
    ∃ pre post, rows' = pre ++ post ∧ List.Forall₂ SameRow rows pre :=
  exists_prefix_of_mem (fun _ _ hab => hab.prevHash)
    (fun a ha b hb => sameRow_of_hash_eq hP.injective (h.hashed a ha) (h'.hashed b hb))
    (h.ne_genesis hP) (h'.ne_genesis hP) h.linked h'.linked hr htip

/-- **Tables that verify and have one last hash hold the same rows.** -/
theorem verifyChain_tamper_evident (hP : CollisionFree P) {db db' : AuditDb} {n n' : Nat}
    (h : verifyChain P (.ok db.rows) = .ok (.valid n))
    (h' : verifyChain P (.ok db'.rows) = .ok (.valid n')) (htip : db.lastHash = db'.lastHash) :
    db.rows.length = db'.rows.length ∧ List.Forall₂ SameRow db.rows db'.rows := by
  have hrows := (verifyChain_valid_iff.mp h).1
  have hrows' := (verifyChain_valid_iff.mp h').1
  rw [lastHash_eq_tip, lastHash_eq_tip] at htip
  have hsame := sameRows_of_tip_eq hP hrows hrows' htip
  exact ⟨hsame.length_eq, hsame⟩

/-- The hash of a row whose payload has `a` and `b`. -/
def sampleHash (prevHash : Str) : Str :=
  ((computeHash Platform.tagged prevHash (lit "svc") (lit "evt")
    (.dict [(.str (lit "a"), .int 1), (.str (lit "b"), .int 2)])
    (lit "2026-01-01T00:00:00+00:00")).toOption).getD []

/-- A table of two rows, of one payload each time, stored as the texts given. -/
def twoRowDb (first second : Str) : AuditDb where
  rows := [
    ⟨1, lit "svc", lit "evt", first, lit "2026-01-01T00:00:00+00:00", genesisHash,
      sampleHash genesisHash⟩,
    ⟨2, lit "svc", lit "evt", second, lit "2026-01-01T00:00:00+00:00", sampleHash genesisHash,
      sampleHash (sampleHash genesisHash)⟩]
  sequence := 2
  chainMeta := {}
  sorted := by simp

theorem lastHash_twoRowDb (first second : Str) :
    (twoRowDb first second).lastHash = sampleHash (sampleHash genesisHash) := by
  simp only [AuditDb.lastHash, twoRowDb, List.getLast?_cons_cons, List.getLast?_singleton]

/-- The payload texts may be rewritten as long as they parse to the same values. -/
theorem verifyChain_tamper_evident_rewritten :
    List.Forall₂ SameRow
      (twoRowDb (lit "\x7b\"a\": 1, \"b\": 2\x7d") (lit "\x7b\"b\":2,\"a\":1\x7d")).rows
      (twoRowDb (lit "\x7b\"b\":2,\"a\":1\x7d") (lit "\x7b\"a\":1,\"b\":2\x7d")).rows := by
  have h : verifyChain Platform.tagged (.ok (twoRowDb (lit "\x7b\"a\": 1, \"b\": 2\x7d")
      (lit "\x7b\"b\":2,\"a\":1\x7d")).rows) = .ok (.valid 2) := by decide +kernel
  have h' : verifyChain Platform.tagged (.ok (twoRowDb (lit "\x7b\"b\":2,\"a\":1\x7d")
      (lit "\x7b\"a\":1,\"b\":2\x7d")).rows) = .ok (.valid 2) := by decide +kernel
  have htip := (lastHash_twoRowDb (lit "\x7b\"a\": 1, \"b\": 2\x7d")
    (lit "\x7b\"b\":2,\"a\":1\x7d")).trans (lastHash_twoRowDb (lit "\x7b\"b\":2,\"a\":1\x7d")
      (lit "\x7b\"a\":1,\"b\":2\x7d")).symm
  exact (verifyChain_tamper_evident collisionFree_tagged h h' htip).2

end Ledger
