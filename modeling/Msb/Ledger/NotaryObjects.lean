import Msb.Ledger.NotaryCheck
import Msb.Ledger.NotaryLines

/-!
# The objects of the notary

The remote holds one object for each entry, under a name that gives back the number of the entry as
long as six digits suffice.

* `entryNameSeq_name` — a name gives back its number
* `healthy_of_stored` — a remote that holds an accepted entry under every number is healthy
-/

namespace Ledger

open Py

variable {P : Platform} {C : Crypto} {D : DigitTable}

/-! ## Names -/

/-- **Six digits and a stamp are read as the number that the digits write.** -/
theorem entryNameSeq_of_digits {ds : List Nat} (hlen : ds.length = 6) (hlt : ∀ d ∈ ds, d < 10)
    {stamp : Str} (hne : stamp ≠ []) (hstamp : stamp.all isStampChar = true) :
    entryNameSeq D (ds.map digitChar ++ 45 :: (stamp ++ lit ".line")) = some (digitsVal ds) := by
  have hlast : (ds.map digitChar ++ 45 :: (stamp ++ lit ".line")).getLast? ≠ some 10 := by
    have hline : lit ".line" = [46, 108, 105, 110] ++ [101] := rfl
    rw [hline, ← List.append_assoc stamp, ← List.cons_append, ← List.append_assoc,
      List.getLast?_concat]
    decide
  have hdigits : ((ds.map digitChar).mapM D.value) = some ds := by
    clear hlen hlast
    induction ds with
    | nil => rfl
    | cons d ds ih =>
      have hd := hlt d List.mem_cons_self
      have hval : D.value (digitChar d) = some d := by
        rw [D.ascii _ (by interval_cases d <;> decide), digit?_digitChar hd]
      rw [List.map_cons, List.mapM_cons, hval, ih fun e he => hlt e (List.mem_cons_of_mem _ he)]
      rfl
  have htake : (ds.map digitChar ++ 45 :: (stamp ++ lit ".line")).take 6 = ds.map digitChar :=
    List.take_left' (by simpa using hlen)
  have hdrop : (ds.map digitChar ++ 45 :: (stamp ++ lit ".line")).drop 6
      = 45 :: (stamp ++ lit ".line") := List.drop_left' (by simpa using hlen)
  have hlength : (45 :: (stamp ++ lit ".line")).length = stamp.length + 6 := by
    rw [List.length_cons, List.length_append]
    rfl
  unfold entryNameSeq
  simp only [if_neg hlast, htake, hdrop, hdigits, hlength]
  rw [if_pos]
  refine ⟨hlen, rfl, ?_, ?_, ?_⟩
  · simpa using hne
  · simpa using hstamp
  · show (45 :: (stamp ++ lit ".line")).drop (stamp.length + 6 - 5) = lit ".line"
    rw [show stamp.length + 6 - 5 = stamp.length + 1 by omega, List.drop_succ_cons]
    exact List.drop_left

/-- The stamp of a name: the time without its colons. -/
theorem name_eq (s : Nat) (n : Noted) :
    n.name s = zeroPad 6 s ++ 45 :: ((n.now.isoformat.filter fun c => c ≠ 58) ++ lit ".line") := by
  have hcolon : (58 : CodePoint) ∉ n.now.isoformat.filter fun c => c ≠ 58 := by
    intro h
    simpa using (List.mem_filter.mp h).2
  have hcolons : replace (lit ":") [] n.now.isoformat = n.now.isoformat.filter fun c => c ≠ 58 :=
    replace_drop 58 _
  rw [Noted.name, entryName, hcolons,
    replace_of_not_mem (show (58 : CodePoint) ∈ lit "+00:00" by decide) hcolon]
  simp [lit]

theorem all_stamp (n : Noted) : (n.now.isoformat.filter fun c => c ≠ 58).all isStampChar = true :=
  List.all_eq_true.mpr fun c hc => stampChar_isoformat n.now c (List.mem_filter.mp hc).1

/-- **A name gives back its number**, where it has six digits. -/
theorem entryNameSeq_name {s : Nat} (hs : s < 10 ^ 6) (n : Noted) :
    entryNameSeq D (n.name s) = some s := by
  obtain ⟨ds, hds, hlt, hval⟩ := zeroPad_digits 6 s
  have hlen : ds.length = 6 := by
    have h := zeroPad_length (by norm_num) hs
    rwa [hds, List.length_map] at h
  have hne : (n.now.isoformat.filter fun c => c ≠ 58) ≠ [] := by
    have hT : (84 : CodePoint) ∈ n.now.isoformat.filter fun c => c ≠ 58 := by
      refine List.mem_filter.mpr ⟨?_, by decide⟩
      simp [UtcTime.isoformat, lit]
    exact List.ne_nil_of_mem hT
  rw [name_eq, hds, entryNameSeq_of_digits hlen hlt hne (all_stamp n), hval]

/-- A name has neither white space nor line ends. -/
theorem name_chars (s : Nat) (n : Noted) : ∀ c ∈ n.name s, 43 ≤ c.val ∧ c.val < 128 := by
  rw [name_eq]
  simp only [List.forall_mem_append, List.forall_mem_cons]
  have hline : (lit ".line").all (fun c => 43 ≤ c.val ∧ c.val < 128) = true := rfl
  refine ⟨fun c hc => lt_of_stampChar (stampChar_zeroPad 6 s c hc), ⟨by decide, by decide⟩,
    fun c hc => lt_of_stampChar (List.all_eq_true.mp (all_stamp n) c hc), fun c hc => ?_⟩
  simpa using List.all_eq_true.mp hline c hc

/-! ## The store of the objects -/

/-- The object of entry `s`. -/
def objectAt (P : Platform) (ns : List Noted) (s : Nat) : Str × Bytes :=
  match ns[s - 1]? with
  | some n => (n.name s, n.line P)
  | none => ([], [])

/-- The remote holds objects of the entries `seqs`, one for each. -/
structure Stored (P : Platform) (ns : List Noted) (seqs : List Nat) (objects : Remote) : Prop where
  objects : objects = seqs.map (objectAt P ns)
  bounds : ∀ s ∈ seqs, 1 ≤ s ∧ s ≤ ns.length
  nodup : seqs.Nodup

theorem objectAt_of_le {ns : List Noted} {s : Nat} (h : 1 ≤ s ∧ s ≤ ns.length) :
    ∃ n, ns[s - 1]? = some n ∧ n ∈ ns ∧ objectAt P ns s = (n.name s, n.line P) := by
  have hlt : s - 1 < ns.length := by omega
  refine ⟨ns[s - 1], List.getElem?_eq_getElem hlt, List.getElem_mem hlt, ?_⟩
  rw [objectAt, List.getElem?_eq_getElem hlt]

section

variable {ns : List Noted} {seqs : List Nat} {objects : Remote}

/-- The number in the name of an object. -/
theorem entryNameSeq_objectAt (hbound : ns.length < 10 ^ 6) {s : Nat} (h : 1 ≤ s ∧ s ≤ ns.length) :
    entryNameSeq D (objectAt P ns s).1 = some s := by
  obtain ⟨n, -, -, hobj⟩ := objectAt_of_le (P := P) h
  rw [hobj]
  exact entryNameSeq_name (by omega) n

/-- An object is found under its name. -/
theorem Stored.get (hstored : Stored P ns seqs objects) (hbound : ns.length < 10 ^ 6) {s : Nat}
    (hs : s ∈ seqs) : objects.get (objectAt P ns s).1 = some (objectAt P ns s).2 := by
  obtain rfl := hstored.objects
  have hsame : ∀ t ∈ seqs, (objectAt P ns t).1 = (objectAt P ns s).1 → t = s := by
    intro t ht hname
    have hparse := congrArg (entryNameSeq DigitTable.asciiOnly) hname
    rwa [entryNameSeq_objectAt hbound (hstored.bounds t ht),
      entryNameSeq_objectAt hbound (hstored.bounds s hs), Option.some.injEq] at hparse
  have hfound : ((seqs.map (objectAt P ns)).find?
      fun p => p.1 = (objectAt P ns s).1).isSome = true := by
    rw [List.find?_isSome]
    exact ⟨objectAt P ns s, List.mem_map.mpr ⟨s, hs, rfl⟩, by simp⟩
  obtain ⟨p, hp⟩ := Option.isSome_iff_exists.mp hfound
  obtain ⟨t, ht, rfl⟩ := List.mem_map.mp (List.mem_of_find?_eq_some hp)
  have hname : (objectAt P ns t).1 = (objectAt P ns s).1 := by simpa using List.find?_some hp
  rw [Remote.get, hp, hsame t ht hname]
  rfl

/-! ## A full remote is healthy -/

/-- `rclone lsf` is documented to print the names of the objects, one on a line. -/
def SinkCall.Lists (call : SinkCall) (remote : Remote) : Prop :=
  match call with
  | .file result => result = .ok ()
  | .command ending => ending = .exited 0 ((remote.map Prod.fst).flatMap (· ++ [10]))

/-- The names that a working listing returns. -/
theorem listSink_stored {call : SinkCall} (hcall : call.Lists objects)
    (hstored : Stored P ns seqs objects) (hbound : ns.length < 10 ^ 6) :
    ∃ names, listSink D call objects = .ok names ∧
        names.Perm (seqs.map fun s => (objectAt P ns s).1) := by
  have hnames : objects.map Prod.fst = seqs.map fun s => (objectAt P ns s).1 := by
    rw [hstored.objects, List.map_map]
    rfl
  have hparse : ∀ name ∈ seqs.map (fun s => (objectAt P ns s).1),
      (entryNameSeq D name).isSome = true := by
    rw [List.forall_mem_map]
    intro s hs
    rw [entryNameSeq_objectAt hbound (hstored.bounds s hs)]
    rfl
  have hentry : ∀ names, names = seqs.map (fun s => (objectAt P ns s).1) →
      (entryNames D names).Perm (seqs.map fun s => (objectAt P ns s).1) := by
    rintro _ rfl
    rw [entryNames, List.filter_eq_self.mpr hparse]
    exact List.perm_insertionSort _ _
  have hchars : ∀ s ∈ seqs, ∀ c ∈ (objectAt P ns s).1, 43 ≤ c.val ∧ c.val < 128 := by
    intro s hs
    obtain ⟨n, -, -, hobj⟩ := objectAt_of_le (P := P) (hstored.bounds s hs)
    rw [hobj]
    exact name_chars s n
  cases call with
  | file result =>
    obtain rfl : result = .ok () := hcall
    exact ⟨_, rfl, hentry _ hnames⟩
  | command ending =>
    obtain rfl : ending = _ := hcall
    refine ⟨_, by rw [listSink, if_neg (not_not.mpr rfl)], hentry _ ?_⟩
    -- the names hold no white space
    rw [splitlines_lines, hnames]
    · conv_rhs => rw [← List.map_id (seqs.map fun s => (objectAt P ns s).1)]
      refine List.map_congr_left fun name hname => ?_
      obtain ⟨s, hs, rfl⟩ := List.mem_map.mp hname
      refine strip_eq_self fun c hc => ?_
      have h := hchars s hs c hc
      simp only [isSpace, decide_eq_false_iff_not]
      omega
    · rw [hnames, List.forall_mem_map]
      intro s hs c hc
      have h := hchars s hs c hc
      exact not_isLineEnd_of_chars ⟨by omega, h.2⟩

/-- Every operation of the call works. -/
structure VerifyCall.Works (call : VerifyCall) (objects : Remote) : Prop where
  listing : call.listing.Lists objects
  read : ∀ name, (call.read name).Reads name objects
  stat : call.stat.Works

theorem statSink_isOk {call : SinkCall} (hcall : call.Works) (modtime : Option Str) :
    ∃ receivedAt, statSink call modtime = .ok receivedAt := by
  cases call with
  | file result =>
    obtain rfl := hcall
    exact ⟨_, rfl⟩
  | command ending => exact (by obtain ⟨output, rfl⟩ := hcall; exact ⟨_, rfl⟩)

/-- **A remote that holds an accepted entry under every number is healthy**, be it the local entry
of that number or another one. -/
theorem healthy_of_stored {self : NotaryService} (hremote : self.remote = true) {chain : Chain}
    {call : VerifyCall} {files : NotaryFiles} (hcall : call.Works files.objects) {ms : List Noted}
    (hlog : files.localLog.getD [] = logBytes P ms) (hne : ms ≠ []) (hlen : ms.length = ns.length)
    (hbound : ns.length < 10 ^ 6) (hclean : ∀ n ∈ ms ++ ns, n.Clean P)
    (haccepted : ∀ n ∈ ms ++ ns, ∃ v,
      self.anchor.verifyNotaryEntry P C n.entry chain files.store = .ok v ∧ v.isValid = true)
    (hstored : Stored P ns seqs files.objects) (hall : ∀ s, s ∈ seqs ↔ 1 ≤ s ∧ s ≤ ns.length) :
    ∃ health, self.verify P C D chain call files = .ok health ∧ health.verdict = lit "HEALTHY" := by
  obtain ⟨hcleanLocal, hcleanRemote⟩ := List.forall_mem_append.mp hclean
  obtain ⟨hacceptedLocal, hacceptedRemote⟩ := List.forall_mem_append.mp haccepted
  obtain ⟨names, hnames, hperm⟩ := listSink_stored (D := D) hcall.listing hstored hbound
  obtain ⟨last, hlast⟩ : ∃ last, ms.getLast? = some last := by
    cases hl : ms.getLast? with
    | none => exact absurd (List.getLast?_eq_none_iff.mp hl) hne
    | some last => exact ⟨last, rfl⟩
  obtain ⟨head, hhead, hvalid⟩ :=
    verifyEntry_reload (hacceptedLocal last (List.mem_of_getLast? hlast))
  obtain ⟨receivedAt, hstat⟩ := statSink_isOk hcall.stat call.modtime
  have hmem : ∀ name, name ∈ names ↔ ∃ s ∈ seqs, (objectAt P ns s).1 = name := fun name => by
    rw [hperm.mem_iff, List.mem_map]
  -- the listed names give back the numbers that were pushed
  have hseqs : ∀ s, (∃ name ∈ names, entryNameSeq D name = some s) ↔ 1 ≤ s ∧ s ≤ ms.length := by
    intro s
    rw [hlen, ← hall s]
    constructor
    · rintro ⟨name, hname, hs⟩
      obtain ⟨t, ht, rfl⟩ := (hmem name).mp hname
      rw [entryNameSeq_objectAt hbound (hstored.bounds t ht), Option.some.injEq] at hs
      exact hs ▸ ht
    · intro hs
      exact ⟨_, (hmem _).mpr ⟨s, hs, rfl⟩, entryNameSeq_objectAt hbound (hstored.bounds s hs)⟩
  refine verify_healthy_iff.mpr ⟨hremote, ms.map (fun n => n.value P), last.value P, head, names,
    receivedAt, readLocalEntries_lines hlog hcleanLocal, by
      rw [List.getLast?_map, hlast]; rfl, hhead,
    hvalid, hnames, ?_, ?_, by simpa using hseqs, hstat⟩
  · intro hempty
    have hpos : 1 ≤ ms.length := List.length_pos_iff.mpr hne
    have hkey := keys_remoteIndex.mpr ((hseqs 1).mpr ⟨le_refl 1, hpos⟩)
    rw [hempty] at hkey
    cases hkey
  · intro p hp
    obtain ⟨hname, -⟩ := mem_remoteIndex hp
    obtain ⟨s, hs, hname⟩ := (hmem p.2).mp hname
    obtain ⟨n, -, hn, hobj⟩ := objectAt_of_le (P := P) (hstored.bounds s hs)
    have hget := hstored.get hbound hs
    rw [hobj] at hget
    obtain ⟨verdict, hverdict, haccept⟩ := verifyEntry_reload (hacceptedRemote n hn)
    rw [← hname, hobj]
    exact ⟨n.line P, n.text P ++ [10], n.value P, verdict, readSink_line (hcall.read _) hget,
      decode_encode (encode_line n), loads_line (hcleanRemote n hn), hverdict, haccept⟩

end

end Ledger
