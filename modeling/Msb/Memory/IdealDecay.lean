import Mathlib.Analysis.SpecialFunctions.Pow.Real
import Msb.Memory.Decay

/-!
# Decay in ideal arithmetic

Over the real numbers, without rounding, a run multiplies the importance of a memory that rests by
the factors of all the consolidations that come to it. Each factor is for the whole time since the
last access, so two of them count that time twice.

* `importance_run` — the importance after a run in which the memory rests
* `decay_law` — when a schedule decays a memory as its last consolidation alone would
-/

namespace Memory

open Py

/-! ## Ideal arithmetic -/

open Classical in
/-- The real numbers. A negative number has no real power but for integers. -/
noncomputable def Floats.ideal : Floats ℝ where
  literal q := q
  lt a b := a < b
  le a b := a ≤ b
  sub a b := a - b
  mul a b := a * b
  div a b := a / b
  pow x y := if x < 0 ∧ ∀ n : ℤ, y ≠ n then .error .typeError else .ok (x ^ y)
  round4 x := x

/-- `max(0.3, decay_factor ** periods)` -/
noncomputable def share (decayFactor lastAccessedAt now : ℝ) : ℝ :=
  max (3 / 10) (decayFactor ^ (max 0 (now - lastAccessedAt) / 2592000))

theorem ideal_max (a b : ℝ) : Floats.ideal.max a b = max a b := by
  unfold Floats.max
  rcases le_or_gt b a with hle | hlt
  · rw [if_neg (by simpa [Floats.ideal] using hle), max_eq_left hle]
  · rw [if_pos (by simpa [Floats.ideal] using hlt), max_eq_right hlt.le]

variable {P : Platform ℝ} {item : MemoryItem ℝ} {db s : Db ℝ} {memoryId : Str} {d last t : ℝ}

theorem decayedImportance_ideal (hP : P.float = .ideal) (hd : 0 < item.decayFactor) (now : ℝ) :
    decayedImportance P now item =
    .ok (item.importance * share item.decayFactor item.lastAccessedAt now) := by
  have hpow : Floats.ideal.pow item.decayFactor (Floats.ideal.periods now item.lastAccessedAt) =
      .ok (item.decayFactor ^ (max 0 (now - item.lastAccessedAt) / 2592000)) := by
    have hperiods : Floats.ideal.periods now item.lastAccessedAt =
        max 0 (now - item.lastAccessedAt) / 2592000 := by
      unfold Floats.periods
      rw [ideal_max]
      simp [Floats.ideal]
    rw [hperiods]
    exact if_neg fun h => absurd h.1 hd.not_gt
  unfold decayedImportance
  rw [hP, hpow]
  show Except.ok (item.importance * Floats.ideal.max (((3 / 10 : ℚ) : ℝ)) _) = _
  rw [ideal_max]
  unfold share
  norm_num

/-! ## The factor -/

theorem share_le_one (hd : 0 < d) (hd1 : d ≤ 1) (last t : ℝ) : share d last t ≤ 1 :=
  max_le (by norm_num) (Real.rpow_le_one hd.le hd1 (by positivity))

theorem share_pos (d last t : ℝ) : 0 < share d last t := lt_max_of_lt_left (by norm_num)

/-- There is no decay where nothing is lost by the time, or no time has passed. -/
theorem share_eq_one_iff (hd : 0 < d) (hd1 : d ≤ 1) : share d last t = 1 ↔ d = 1 ∨ t ≤ last := by
  constructor
  · intro h
    by_contra hnot
    rw [not_or, not_le] at hnot
    have hage : 0 < max 0 (t - last) / 2592000 :=
      div_pos (lt_max_of_lt_right (by linarith)) (by norm_num)
    have hpow : d ^ (max 0 (t - last) / 2592000) < 1 :=
      Real.rpow_lt_one hd.le (lt_of_le_of_ne hd1 hnot.1) hage
    have hlt : share d last t < 1 := max_lt (by norm_num) hpow
    exact absurd h hlt.ne
  · rintro (rfl | hle)
    · unfold share
      rw [Real.one_rpow, max_eq_right (by norm_num)]
    · have hage : max 0 (t - last) = 0 := max_eq_left (by linarith)
      unfold share
      rw [hage, zero_div, Real.rpow_zero, max_eq_right (by norm_num)]

theorem prod_eq_one_iff {fs : List ℝ} (h : ∀ f ∈ fs, 0 < f ∧ f ≤ 1) :
    fs.prod = 1 ↔ ∀ f ∈ fs, f = 1 := by
  have hle : ∀ {fs : List ℝ}, (∀ f ∈ fs, 0 < f ∧ f ≤ 1) → 0 < fs.prod ∧ fs.prod ≤ 1 := by
    intro fs hfs
    induction fs with
    | nil => simp
    | cons f fs ih =>
      obtain ⟨hpos, hone⟩ := ih fun g hg => hfs g (List.mem_cons_of_mem _ hg)
      obtain ⟨hf, hf1⟩ := hfs f List.mem_cons_self
      rw [List.prod_cons]
      exact ⟨mul_pos hf hpos, mul_le_one₀ hf1 hpos.le hone⟩
  induction fs with
  | nil => simp
  | cons f fs ih =>
    have htail : ∀ g ∈ fs, 0 < g ∧ g ≤ 1 := fun g hg => h g (List.mem_cons_of_mem _ hg)
    obtain ⟨hf, hf1⟩ := h f List.mem_cons_self
    obtain ⟨hpos, hone⟩ := hle htail
    rw [List.prod_cons, List.forall_mem_cons]
    constructor
    · intro hprod
      have hfirst : f = 1 := le_antisymm hf1 (by nlinarith)
      rw [hfirst, one_mul] at hprod
      exact ⟨hfirst, (ih htail).mp hprod⟩
    · rintro ⟨rfl, hrest⟩
      rw [(ih htail).mpr hrest, one_mul]

/-! ## Runs -/

/-- What is stored of an importance that is multiplied by a factor. -/
noncomputable def faded (importance factor : ℝ) : ℝ :=
  if importance ≤ 0 then importance else importance * factor

theorem faded_faded (importance f g : ℝ) (hf : 0 < f) :
    faded (faded importance f) g = faded importance (f * g) := by
  unfold faded
  by_cases hle : importance ≤ 0
  · rw [if_pos hle, if_pos hle, if_pos hle]
  · rw [if_neg hle, if_neg hle, if_neg (not_le.mpr (mul_pos (not_le.mp hle) hf)), mul_assoc]

theorem importance_decayed (hP : P.float = .ideal) (hd : 0 < item.decayFactor)
    (hd1 : item.decayFactor ≤ 1) (now : ℝ) :
    (item.decayed P now).importance = faded item.importance
    (share item.decayFactor item.lastAccessedAt now) := by
  have hshare := share_le_one hd hd1 item.lastAccessedAt now
  have hlt : P.float.lt = fun a b => decide (a < b) := by
    rw [hP]
    rfl
  unfold MemoryItem.decayed faded
  rw [decayedImportance_ideal hP hd]
  dsimp only
  rw [hlt]
  simp only [decide_eq_true_eq]
  split
  · rename_i hless
    rw [if_neg (fun hle => by nlinarith)]
  · rename_i hmore
    split
    · rfl
    · rename_i hpos
      have hone : share item.decayFactor item.lastAccessedAt now = 1 :=
        le_antisymm hshare (by nlinarith)
      rw [hone, mul_one]

/-- The factor of several decays. -/
noncomputable def factor (d last : ℝ) (times : List ℝ) : ℝ := (times.map (share d last)).prod

theorem factor_pos (d last : ℝ) (times : List ℝ) : 0 < factor d last times := by
  unfold factor
  refine List.prod_pos fun f hf => ?_
  obtain ⟨t, -, rfl⟩ := List.mem_map.mp hf
  exact share_pos d last t

theorem factor_append (d last : ℝ) (ts us : List ℝ) :
    factor d last (ts ++ us) = factor d last ts * factor d last us := by
  unfold factor
  rw [List.map_append, List.prod_append]

theorem factor_eq_one_iff (hd : 0 < d) (hd1 : d ≤ 1) {times : List ℝ} :
    factor d last times = 1 ↔ d = 1 ∨ ∀ t ∈ times, t ≤ last := by
  have hbounds : ∀ f ∈ times.map (share d last), 0 < f ∧ f ≤ 1 := by
    intro f hf
    obtain ⟨t, -, rfl⟩ := List.mem_map.mp hf
    exact ⟨share_pos d last t, share_le_one hd hd1 last t⟩
  unfold factor
  rw [prod_eq_one_iff hbounds, List.forall_mem_map]
  simp only [share_eq_one_iff hd hd1]
  constructor
  · intro h
    by_cases hone : d = 1
    · exact Or.inl hone
    · exact Or.inr fun t ht => (h t ht).resolve_left hone
  · rintro (hone | h) t ht
    · exact Or.inl hone
    · exact Or.inr (h t ht)

theorem foldl_decayed (hP : P.float = .ideal) (hd : 0 < item.decayFactor)
    (hd1 : item.decayFactor ≤ 1) (times : List ℝ) :
    (times.foldl (MemoryItem.decayed P) item).importance =
      faded item.importance (factor item.decayFactor item.lastAccessedAt times) := by
  induction times generalizing item with
  | nil => simp [factor, faded]
  | cons t times ih =>
    obtain ⟨hdecay, hlast, -⟩ := rested_decayed P item t
    rw [List.foldl_cons, ih (hdecay.symm ▸ hd) (hdecay.symm ▸ hd1), hdecay, hlast,
      importance_decayed hP hd hd1, faded_faded _ _ _ (share_pos _ _ _)]
    rfl

/-- **The importance after a run in which the memory rests.** -/
theorem importance_run (hP : P.float = .ideal) (hunique : db.Unique)
    (hrow : db.find memoryId = some item)
    (hd : 0 < item.decayFactor) (hd1 : item.decayFactor ≤ 1) {calls : List (Call ℝ)}
    (hrests : Machine.Along (step P) (Call.Rests P memoryId) db calls)
      (hrun : Machine.run (step P) db calls = some s) :
    s.Unique ∧ ∃ item', s.find memoryId = some item' ∧
      Rested item item'
      (faded item.importance
        (factor item.decayFactor item.lastAccessedAt (decayTimes P memoryId db calls))) := by
  induction calls generalizing db item with
  | nil =>
    obtain rfl := Option.some.inj hrun
    refine ⟨hunique, item, hrow, rfl, rfl, ?_⟩
    simp [decayTimes, factor, faded]
  | cons call calls ih =>
    obtain ⟨item', hrow', hdecay, hlast, himportance⟩ := call_row hunique hrow hrests.1
    have hunique' : (call.run P db).Unique := (call_recorded (P := P) hunique call).unique
    obtain ⟨hs, item'', hrow'', hdecay', hlast', himportance'⟩ :=
      ih hunique' hrow' (hdecay.symm ▸ hd) (hdecay.symm ▸ hd1) (hrests.2 _ rfl) hrun
    refine ⟨hs, item'', hrow'', hdecay'.trans hdecay, hlast'.trans hlast, ?_⟩
    rw [himportance', himportance, foldl_decayed hP hd hd1, hdecay, hlast,
      faded_faded _ _ _ (factor_pos _ _ _), ← factor_append]
    rfl

/-! ## The law -/

theorem decayTimes_append (P : Platform ℝ) (memoryId : Str) {db s : Db ℝ}
    {calls calls' : List (Call ℝ)} (hrun : Machine.run (step P) db calls = some s) :
    decayTimes P memoryId db (calls ++ calls') = decayTimes P memoryId db calls ++
        decayTimes P memoryId s calls' := by
  induction calls generalizing db with
  | nil =>
    obtain rfl := Option.some.inj hrun
    rfl
  | cons call calls ih =>
    rw [List.cons_append, decayTimes, decayTimes, List.append_assoc]
    exact congrArg _ (ih hrun)

theorem faded_eq_faded_iff {importance f g : ℝ} :
    faded importance f = faded importance g ↔ importance ≤ 0 ∨ f = g := by
  unfold faded
  by_cases hle : importance ≤ 0
  · rw [if_pos hle, if_pos hle]
    exact iff_of_true rfl (Or.inl hle)
  · rw [if_neg hle, if_neg hle, mul_right_inj' (not_le.mp hle).ne', or_iff_right hle]

/-- A memory that rests in a schedule of calls, the last of them a consolidation, and in that
consolidation alone. -/
structure Schedule (P : Platform ℝ) (db : Db ℝ) (memoryId : Str) (item : MemoryItem ℝ)
    (calls : List (Call ℝ)) (tenant by' : Str) (now : ℝ) : Prop where
  unique : db.Unique
  row : db.find memoryId = some item
  pos : 0 < item.decayFactor
  le_one : item.decayFactor ≤ 1
  rests : Machine.Along (step P) (Call.Rests P memoryId) db (calls ++ [.consolidate tenant by' now])
  restsAlone : (Call.consolidate tenant by' now).Rests P memoryId db

/-- The importance of the memory is that after the last consolidation alone. -/
def AsOnce (P : Platform ℝ) (db t : Db ℝ) (memoryId tenant by' : Str) (now : ℝ) : Prop :=
  (t.find memoryId).map MemoryItem.importance =
    ((consolidate P db tenant by' now).2.find memoryId).map MemoryItem.importance

section

variable {t : Db ℝ} {calls : List (Call ℝ)} {tenant by' : Str} {now : ℝ}

theorem asOnce_iff (hP : P.float = .ideal) (h : Schedule P db memoryId item calls tenant by' now)
    (hs : Machine.run (step P) db calls = some s)
    (ht : step P s (.consolidate tenant by' now) = some t) :
    AsOnce P db t memoryId tenant by' now ↔ item.importance ≤ 0 ∨
      factor item.decayFactor item.lastAccessedAt
      (decayTimes P memoryId db (calls ++ [.consolidate tenant by' now])) =
        factor item.decayFactor item.lastAccessedAt
        (decayTimes P memoryId db [.consolidate tenant by' now]) := by
  have hrun : Machine.run (step P) db (calls ++ [.consolidate tenant by' now]) = some t :=
    Machine.run_concat_eq_some.mpr ⟨s, hs, ht⟩
  have hrunAlone : Machine.run (step P) db [.consolidate tenant by' now] =
    some (consolidate P db tenant by' now).2 := rfl
  obtain ⟨-, last, hlast, -, -, hschedule⟩ :=
    importance_run hP h.unique h.row h.pos h.le_one h.rests hrun
  have hrestsAlone : Machine.Along (step P) (Call.Rests P memoryId) db
      [.consolidate tenant by' now] :=
    ⟨h.restsAlone, fun _ _ => trivial⟩
  obtain ⟨-, alone, halone, -, -, honce⟩ :=
    importance_run hP h.unique h.row h.pos h.le_one hrestsAlone hrunAlone
  unfold AsOnce
  rw [hlast, halone, Option.map_some, Option.map_some, Option.some_inj, hschedule, honce]
  exact faded_eq_faded_iff

theorem decayTimes_of_reaches (hreach : Reaches P now db tenant by' memoryId) :
    decayTimes P memoryId db [.consolidate tenant by' now] = [now] := by
  simp [decayTimes, Call.decayTimes, hreach]

theorem asOnce_iff_of_reaches (hP : P.float = .ideal)
    (h : Schedule P db memoryId item calls tenant by' now)
    (hs : Machine.run (step P) db calls = some s)
    (ht : step P s (.consolidate tenant by' now) = some t)
    (hreach : Reaches P now s tenant by' memoryId) (halone : Reaches P now db tenant by' memoryId) :
    AsOnce P db t memoryId tenant by' now ↔
      item.importance ≤ 0 ∨ item.decayFactor = 1 ∨ ∀ t ∈ decayTimes P memoryId db calls,
      t ≤ item.lastAccessedAt := by
  rw [asOnce_iff hP h hs ht, decayTimes_append P memoryId hs, factor_append,
    decayTimes_of_reaches hreach,
    decayTimes_of_reaches halone, mul_eq_right₀ (factor_pos _ _ _).ne',
    factor_eq_one_iff h.pos h.le_one]

/-- **When a schedule decays a memory as its last consolidation alone would**: in terms of the
factors, and, where that consolidation comes to the memory, in terms of the memory and the times of
the others. -/
theorem decay_law (P : Platform ℝ) (hP : P.float = .ideal) (db s t : Db ℝ) (memoryId : Str)
    (item : MemoryItem ℝ)
    (calls : List (Call ℝ)) (tenant by' : Str) (now : ℝ)
    (h : Schedule P db memoryId item calls tenant by' now)
    (hs : Machine.run (step P) db calls = some s)
      (ht : step P s (.consolidate tenant by' now) = some t) :
    (AsOnce P db t memoryId tenant by' now ↔ item.importance ≤ 0 ∨
      factor item.decayFactor item.lastAccessedAt
      (decayTimes P memoryId db (calls ++ [.consolidate tenant by' now])) =
        factor item.decayFactor item.lastAccessedAt
        (decayTimes P memoryId db [.consolidate tenant by' now])) ∧
    (Reaches P now s tenant by' memoryId → Reaches P now db tenant by' memoryId →
      (AsOnce P db t memoryId tenant by' now ↔
        item.importance ≤ 0 ∨ item.decayFactor = 1 ∨ ∀ t ∈ decayTimes P memoryId db calls,
        t ≤ item.lastAccessedAt)) :=
  ⟨asOnce_iff hP h hs ht, asOnce_iff_of_reaches hP h hs ht⟩

end

/-! ### One memory -/

/-- A platform with ideal arithmetic. -/
noncomputable def Platform.ideal : Platform ℝ where
  float := .ideal
  redact s := s
  lower s := s
  matchesLike item term := containsText term item.content
  sha256 b := 1 :: b

noncomputable def itemR (importance updatedAt : ℝ) : MemoryItem ℝ :=
  ⟨lit "m", .semantic, lit "x", [], importance, [], [], [], lit "default", [], [], .unverified,
    1 / 2, [], 0, updatedAt, 0, 0, false⟩

theorem itemR_groups (importance updatedAt : ℝ) :
    Db.listActive Platform.ideal ⟨[itemR importance updatedAt], []⟩ (lit "default") 1000 =
    [itemR importance updatedAt] ∧
      groupsOf [itemR importance updatedAt] = [[itemR importance updatedAt]] := by
  constructor
  · simp [Db.listActive, itemR]
  · simp [groupsOf, List.eraseDups_cons]

theorem itemR_merges (importance updatedAt now : ℝ) :
    Db.merges Platform.ideal now ⟨[itemR importance updatedAt], []⟩ (lit "default") = [] := by
  unfold Db.merges
  rw [(itemR_groups importance updatedAt).1, (itemR_groups importance updatedAt).2,
    List.flatMap_singleton]
  exact if_pos (by decide : 1 < 2)

theorem upsertSurvivor_ok (h : Encodes item.texts) :
    upsertSurvivor db item = (.ok (), db.put item) := by
  unfold upsertSurvivor
  rw [upsert_eq_ok.mpr ⟨h, rfl⟩]

theorem itemR_decay (importance updatedAt now : ℝ) :
    decay Platform.ideal now ⟨[itemR importance updatedAt], []⟩ (itemR importance updatedAt) =
      (.ok (), ⟨[(itemR importance updatedAt).decayed Platform.ideal now], []⟩) := by
  have hpos : 0 < (itemR importance updatedAt).decayFactor := by norm_num [itemR]
  have hencodes : Encodes [lit "m", lit "x", [], [], [], lit "default", [], []] := by decide
  unfold decay MemoryItem.decayed
  rw [decayedImportance_ideal rfl hpos]
  dsimp only
  split
  · refine (upsertSurvivor_ok ?_).trans rfl
    exact hencodes
  · rfl

theorem itemR_consolidate (importance updatedAt now : ℝ) (by' : Str) :
    Reaches Platform.ideal now ⟨[itemR importance updatedAt], []⟩ (lit "default") by' (lit "m") ∧
      (consolidate Platform.ideal ⟨[itemR importance updatedAt], []⟩ (lit "default") by' now).2 =
        ⟨[(itemR importance updatedAt).decayed Platform.ideal now], []⟩ := by
  obtain ⟨hlisted, hgroups⟩ := itemR_groups importance updatedAt
  have hmerging : each (consolidateGroup Platform.ideal by' now) ⟨[itemR importance updatedAt], []⟩
    [[itemR importance updatedAt]] = (.ok (), ⟨[itemR importance updatedAt], []⟩) := rfl
  constructor
  · refine ⟨by decide, _, by rw [hlisted, hgroups]; exact hmerging, [], _, [], hlisted, rfl, ?_⟩
    rw [List.nil_append, each_singleton, itemR_decay]
  · unfold consolidate
    have hbind : bindTexts [lit "default"] = .ok () := rfl
    rw [hbind]
    dsimp only
    rw [hlisted, hgroups, hmerging]
    show (decayPass _ _ _ _ _).2 = _
    rw [decayPass_db, hlisted, each_singleton, itemR_decay]

theorem itemR_decayed (importance updatedAt now : ℝ) :
    ∃ updatedAt', (itemR importance updatedAt).decayed Platform.ideal now =
    itemR (faded importance (share (1 / 2) 0 now)) updatedAt' := by
  have hpos : 0 < (itemR importance updatedAt).decayFactor := by norm_num [itemR]
  have hle : (itemR importance updatedAt).decayFactor ≤ 1 := by norm_num [itemR]
  have himportance := importance_decayed (P := Platform.ideal) rfl hpos hle now
  have hitem : ∃ importance' updatedAt', (itemR importance updatedAt).decayed Platform.ideal now =
      itemR importance' updatedAt' := by
    unfold MemoryItem.decayed
    split
    · exact ⟨_, _, rfl⟩
    · split
      · exact ⟨_, _, rfl⟩
      · exact ⟨_, _, rfl⟩
  obtain ⟨importance', updatedAt', hitem⟩ := hitem
  rw [hitem] at himportance
  exact ⟨updatedAt', hitem.trans (congrArg (itemR · updatedAt') himportance)⟩

theorem itemR_rests (importance updatedAt now : ℝ) (by' : Str) :
    (Call.consolidate (lit "default") by' now).Rests Platform.ideal (lit "m")
    ⟨[itemR importance updatedAt], []⟩ := by
  show Unmerged _ _ _ _ _
  unfold Unmerged MergedAway
  rw [itemR_merges]
  simp

/-- One memory, consolidated twice. -/
theorem itemR_schedule (importance updatedAt first now : ℝ) (by' : Str) :
    Schedule Platform.ideal ⟨[itemR importance updatedAt], []⟩ (lit "m")
    (itemR importance updatedAt)
      [.consolidate (lit "default") by' first] (lit "default") by' now where
  unique := List.nodup_singleton _
  row := rfl
  pos := by norm_num [itemR]
  le_one := by norm_num [itemR]
  rests := by
    refine ⟨itemR_rests importance updatedAt first by', fun t ht => ⟨?_, fun _ _ => trivial⟩⟩
    obtain rfl := Option.some.inj ht
    obtain ⟨updatedAt', hdecayed⟩ := itemR_decayed importance updatedAt first
    show Call.Rests _ _ (consolidate _ _ _ _ _).2 _
    rw [(itemR_consolidate importance updatedAt first by').2, hdecayed]
    exact itemR_rests _ updatedAt' now by'
  restsAlone := itemR_rests importance updatedAt now by'

/-- Two consolidations at the same instant decay a memory twice. -/
theorem decayed_twice : ∃ t, Machine.run (step Platform.ideal) ⟨[itemR 1 0], []⟩
      [.consolidate (lit "default") [] 2592000, .consolidate (lit "default") [] 2592000] = some t ∧
    ¬ AsOnce Platform.ideal ⟨[itemR 1 0], []⟩ t (lit "m") (lit "default") [] 2592000 := by
  refine ⟨_, rfl, fun h => ?_⟩
  obtain ⟨updatedAt', hdecayed⟩ := itemR_decayed 1 0 2592000
  obtain ⟨hreach, hfirst⟩ := itemR_consolidate 1 0 2592000 []
  have hsecond : Reaches Platform.ideal 2592000
    (consolidate Platform.ideal ⟨[itemR 1 0], []⟩ (lit "default") [] 2592000).2
      (lit "default") [] (lit "m") := by
    rw [hfirst, hdecayed]
    exact (itemR_consolidate _ updatedAt' 2592000 []).1
  have hiff :=
    (asOnce_iff_of_reaches rfl (itemR_schedule 1 0 2592000 2592000 []) rfl rfl hsecond hreach).mp h
  rcases hiff with himportance | hdecay | htimes
  · norm_num [itemR] at himportance
  · norm_num [itemR] at hdecay
  · have htime :=
      htimes 2592000 (by rw [decayTimes_of_reaches hreach]; exact List.mem_singleton.mpr rfl)
    norm_num [itemR] at htime

/-- A consolidation at the time of the last access, and one a month later. -/
theorem decay_law_itemR : ∃ t, Machine.run (step Platform.ideal) ⟨[itemR 1 0], []⟩
      [.consolidate (lit "default") [] 0, .consolidate (lit "default") [] 2592000] = some t ∧
    AsOnce Platform.ideal ⟨[itemR 1 0], []⟩ t (lit "m") (lit "default") [] 2592000 := by
  obtain ⟨updatedAt', hdecayed⟩ := itemR_decayed 1 0 0
  obtain ⟨hreached, hfirst⟩ := itemR_consolidate 1 0 0 []
  have hreach := (itemR_consolidate 1 0 2592000 []).1
  have hsecond : Reaches Platform.ideal 2592000
      (consolidate Platform.ideal ⟨[itemR 1 0], []⟩ (lit "default") [] 0).2
      (lit "default") [] (lit "m") := by
    rw [hfirst, hdecayed]
    exact (itemR_consolidate _ updatedAt' 2592000 []).1
  refine ⟨_, rfl, ((decay_law Platform.ideal rfl _ _ _ _ _ _ _ _ _
    (itemR_schedule 1 0 0 2592000 []) rfl rfl).2 hsecond hreach).mpr ?_⟩
  refine Or.inr (Or.inr fun t ht => ?_)
  rw [decayTimes_of_reaches hreached] at ht
  exact (List.mem_singleton.mp ht).le

end Memory
