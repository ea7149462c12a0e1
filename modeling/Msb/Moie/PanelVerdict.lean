import Msb.Moie.Panel

/-!
# Is the panel complete and fail-closed?

The registry of a controller keeps one expert for each id, and the id of a reviewer is its lens:
where a lens comes up twice, the first reviewer is dropped. And the last verdict line of an output
decides, whatever the others say and whatever comes after its first word, so an echo of the line
that the contract asks for is read as `SAFE`.

* `panel_iff` — when the decision of a panel is what its reviewers state
-/

namespace Moie

open Py

variable {lib : MoieLib}

/-! ## What is claimed -/

/-- The verdict lines of an output. -/
def verdictLines (lib : MoieLib) (text : Str) : List VerdictLine :=
  (splitlines (strip text)).filterMap fun line => matchVerdict lib (strip line)

/-- The line is the list of alternatives of the contract, `SAFE|CONCERN|BLOCK`, white space left
out. -/
def VerdictLine.Echo (l : VerdictLine) : Prop :=
  l.verdict = safe ∧ (l.rest.filter fun c => !isSpace c).map upperLetter = lit "|CONCERN|BLOCK"

instance (l : VerdictLine) : Decidable l.Echo := inferInstanceAs (Decidable (_ ∧ _))

/-- The output states a single verdict, in every verdict line that it has. -/
def Output.States (lib : MoieLib) (verdict : Str) : Output → Prop
  | .text t => verdictLines lib t ≠ [] ∧ ∀ l ∈ verdictLines lib t, l.verdict = verdict ∧ ¬ l.Echo
  | _ => False

instance (verdict : Str) : DecidablePred (Output.States lib verdict)
  | .text _ => inferInstanceAs (Decidable (_ ∧ ∀ l ∈ _, _))
  | .noClient _ => isFalse not_false
  | .raised _ => isFalse not_false

/-- What an output counts as. -/
def Output.counts (lib : MoieLib) (out : Output) : Str :=
  if out.States lib block then block else if out.States lib safe then safe else concern

/-- The decision of a panel is complete and fail-closed. -/
structure Panelled (lib : MoieLib) (panel : ReviewPanel) (controller : Controller)
    (outputs : LLMExpert → Output) (claim : Str) (context : Context) : Prop where
  complete : List.Forall₂ (fun e r => r.expertId = e.expertId ∧ r.verdict = (outputs e).counts lib)
    panel.experts (controller.analyze lib outputs claim context).reports
  blocked : (controller.analyze lib outputs claim context).verdict = block ↔
    ∃ e ∈ panel.experts, (outputs e).States lib block
  approved : (controller.analyze lib outputs claim context).verdict = approve →
    ∀ e ∈ panel.experts, (outputs e).States lib safe
  concurrent : ∀ order : List Nat, (∀ i < panel.experts.length, i ∈ order) →
    controller.aanalyze lib outputs claim context order = controller.analyze lib outputs
    claim context

/-- Where the last verdict line says `SAFE` or `BLOCK`, every verdict line says so, and none is an
echo. -/
def Output.Clear (lib : MoieLib) : Output → Prop
  | .text t => ∀ l, (verdictLines lib t).getLast? = some l → l.verdict = safe ∨ l.verdict = block →
      ∀ l' ∈ verdictLines lib t, l'.verdict = l.verdict ∧ ¬ l'.Echo
  | _ => True

/-! ## Reading an output -/

/-- The loop over the lines. -/
theorem foldl_line (lines : List Str) (out : ExpertOutput) :
    let last := (lines.filterMap fun line => matchVerdict lib (strip line)).getLast?
    (lines.foldl (ExpertOutput.line lib) out).verdict = (last.map VerdictLine.verdict).getD
      out.verdict ∧
      (lines.foldl (ExpertOutput.line lib) out).explicit = (last.isSome || out.explicit) := by
  induction lines using List.reverseRecOn with
  | nil => simp
  | append_singleton lines line ih =>
    dsimp only at ih ⊢
    have hbucket : ∀ out : ExpertOutput, ∀ s, (out.bucket lib s).verdict = out.verdict ∧
        (out.bucket lib s).explicit = out.explicit := by
      intro out s
      unfold ExpertOutput.bucket
      dsimp only
      split_ifs <;> exact ⟨rfl, rfl⟩
    rw [List.foldl_append, List.foldl_cons, List.foldl_nil, List.filterMap_append]
    cases hmatch : matchVerdict lib (strip line) with
    | some m =>
      have hne : strip line ≠ [] := by
        intro hnil
        rw [hnil] at hmatch
        cases hmatch
      have hline : ∀ out : ExpertOutput,
          out.line lib line = { out with verdict := m.verdict, explicit := true } := by
        intro out
        unfold ExpertOutput.line
        simp only [hne, if_false, hmatch]
      rw [hline]
      simp [hmatch]
    | none =>
      have hline : ∀ out : ExpertOutput, (out.line lib line).verdict = out.verdict ∧
          (out.line lib line).explicit = out.explicit := by
        intro out
        unfold ExpertOutput.line
        dsimp only
        split
        · exact ⟨rfl, rfl⟩
        · rw [hmatch]
          exact hbucket out _
      rw [(hline _).1, (hline _).2]
      simpa [hmatch] using ih

/-- The verdict that is reported. -/
def Output.last (lib : MoieLib) : Output → Str
  | .text t =>
    (((verdictLines lib t).getLast?.map VerdictLine.verdict).filter fun v => v = safe ∨
      v = block).getD concern
  | _ => concern

theorem verdict_ne : safe ≠ block ∧ safe ≠ concern ∧ block ≠ concern ∧ block ≠ conditional ∧
    block ≠ approve ∧ conditional ≠ approve := by
  decide +kernel

/-- **What a reviewer reports is what its last verdict line says.** -/
theorem safeAnalyze_verdict (e : LLMExpert) (out : Output) :
    (e.safeAnalyze lib out).verdict = out.last lib := by
  unfold LLMExpert.safeAnalyze LLMExpert.analyze
  cases out with
  | noClient err => rfl
  | raised err => rfl
  | text t =>
    obtain ⟨hverdict, hexplicit⟩ := foldl_line (splitlines (strip t)) ⟨concern, [], [], [], false⟩
    dsimp only at hverdict hexplicit
    change (parseExpertOutput lib (strip t)).verdict = ((verdictLines lib t).getLast?.map _).getD
      concern at hverdict
    change (parseExpertOutput lib (strip t)).explicit =
      ((verdictLines lib t).getLast?.isSome || false) at hexplicit
    dsimp only [Output.last]
    cases hlast : (verdictLines lib t).getLast? with
    | none =>
      rw [hlast] at hexplicit
      rw [if_pos (by simpa using hexplicit)]
      rfl
    | some l =>
      rw [hlast] at hverdict hexplicit
      rw [if_neg (by simp [hexplicit])]
      have hverdict : (parseExpertOutput lib (strip t)).verdict = l.verdict := hverdict
      rw [hverdict, Option.map_some]
      obtain ⟨-, hsafeConcern, hblockConcern, -⟩ := verdict_ne
      by_cases hknown : l.verdict = safe ∨ l.verdict = block
      · have hconfidence : ∃ q, LLMExpert.verdictConfidence lib l.verdict = .ok q := by
          unfold LLMExpert.verdictConfidence
          split_ifs with h1 h2 h3
          · exact ⟨_, rfl⟩
          · exact ⟨_, rfl⟩
          · exact ⟨_, rfl⟩
          · exact absurd hknown (not_or.mpr ⟨h1, h3⟩)
        obtain ⟨q, hq⟩ := hconfidence
        rw [hq, Option.filter_some_pos (by simpa using hknown)]
        rfl
      · rw [Option.filter_some_neg (by simpa using hknown)]
        -- what is left is `CONCERN`, or a word for which there is no confidence
        unfold LLMExpert.verdictConfidence
        rw [if_neg (not_or.mp hknown).1]
        split_ifs with h2 h3
        · exact h2
        · exact absurd (Or.inr h3) hknown
        · rfl

/-- The last verdict line says `SAFE` or `BLOCK`, or the report is a concern. -/
theorem last_cases (out : Output) : out.last lib = concern ∨ ∃ t l, out = .text t ∧
    (verdictLines lib t).getLast? = some l ∧
    (l.verdict = safe ∨ l.verdict = block) ∧ out.last lib = l.verdict := by
  cases out with
  | noClient e => exact Or.inl rfl
  | raised e => exact Or.inl rfl
  | text t =>
    unfold Output.last
    dsimp only
    cases hlast : (verdictLines lib t).getLast? with
    | none => exact Or.inl rfl
    | some l =>
      rw [Option.map_some]
      by_cases hknown : l.verdict = safe ∨ l.verdict = block
      · rw [Option.filter_some_pos (by simpa using hknown)]
        exact Or.inr ⟨t, l, rfl, hlast, hknown, rfl⟩
      · rw [Option.filter_some_neg (by simpa using hknown)]
        exact Or.inl rfl

/-- What an output states is what is reported. -/
theorem last_of_states {out : Output} {v : Str} (hv : v = safe ∨ v = block) (h : out.States lib v) :
    out.last lib = v := by
  cases out with
  | noClient e => exact h.elim
  | raised e => exact h.elim
  | text t =>
    obtain ⟨hne, hall⟩ := h
    have hlast := List.getLast?_eq_some_getLast hne
    have hverdict := (hall _ (List.getLast_mem hne)).1
    unfold Output.last
    dsimp only
    rw [hlast, Option.map_some, hverdict, Option.filter_some_pos (by simpa using hv)]
    rfl

/-- What an output that states a verdict counts as. -/
theorem counts_eq_iff {out : Output} {v : Str} (hv : v = safe ∨ v = block) :
    out.counts lib = v ↔ out.States lib v := by
  obtain ⟨hsafeBlock, hsafeConcern, hblockConcern, -⟩ := verdict_ne
  have hexclusive : out.States lib safe → ¬ out.States lib block := by
    intro hsafe hblock
    exact hsafeBlock
      ((last_of_states (Or.inl rfl) hsafe).symm.trans (last_of_states (Or.inr rfl) hblock))
  unfold Output.counts
  rcases hv with rfl | rfl
  · constructor
    · intro h
      split_ifs at h with h1 h2
      · exact absurd h.symm hsafeBlock
      · exact h2
      · exact absurd h.symm hsafeConcern
    · intro h
      rw [if_neg (hexclusive h), if_pos h]
  · constructor
    · intro h
      split_ifs at h with h1 h2
      · exact h1
      · exact absurd h hsafeBlock
      · exact absurd h.symm hblockConcern
    · intro h
      rw [if_pos h]

theorem counts_cases (out : Output) :
    out.counts lib = concern ∨ out.counts lib = safe ∨ out.counts lib = block := by
  unfold Output.counts
  split_ifs
  · exact Or.inr (Or.inr rfl)
  · exact Or.inr (Or.inl rfl)
  · exact Or.inl rfl

/-- **An output is reported as what it counts as exactly where it is clear.** -/
theorem last_eq_counts (out : Output) : out.last lib = out.counts lib ↔ out.Clear lib := by
  obtain ⟨hsafeBlock, hsafeConcern, hblockConcern, -⟩ := verdict_ne
  constructor
  · intro h
    cases out with
    | noClient e => trivial
    | raised e => trivial
    | text t =>
      intro l hl hknown
      rcases last_cases (.text t) with hconcern | ⟨t', l', ht, hl', -, heq⟩
      · -- the last line says one of the two, so the report is none
        exfalso
        unfold Output.last at hconcern
        dsimp only at hconcern
        rw [hl, Option.map_some, Option.filter_some_pos (by simpa using hknown), Option.getD_some]
          at hconcern
        rw [hconcern] at hknown
        exact hknown.elim (fun h => hsafeConcern h.symm) fun h => hblockConcern h.symm
      · obtain rfl := Output.text.inj ht
        obtain rfl := Option.some.inj (hl.symm.trans hl')
        exact ((counts_eq_iff hknown).mp (h.symm.trans heq)).2
  · intro h
    rcases last_cases out with hconcern | ⟨t, l, rfl, hl, hknown, heq⟩
    · rcases counts_cases out with hcounts | hcounts | hcounts
      · rw [hconcern, hcounts]
      · have hlast := last_of_states (Or.inl rfl) ((counts_eq_iff (Or.inl rfl)).mp hcounts)
        exact absurd (hlast.symm.trans hconcern) hsafeConcern
      · have hlast := last_of_states (Or.inr rfl) ((counts_eq_iff (Or.inr rfl)).mp hcounts)
        exact absurd (hlast.symm.trans hconcern) hblockConcern
    · have hstates : (Output.text t).States lib l.verdict :=
        ⟨List.ne_nil_of_mem (List.mem_of_getLast? hl), h l hl hknown⟩
      rw [heq, (counts_eq_iff hknown).mpr hstates]

/-! ## The registry -/

theorem registry_unique (experts : List LLMExpert) :
    Keyed.Unique LLMExpert.expertId (registry experts) := by
  induction experts using List.reverseRecOn with
  | nil => exact Keyed.unique_nil
  | append_singleton experts e ih =>
    unfold registry at ih ⊢
    rw [List.foldl_append]
    exact ih.put

theorem mem_registry {e : LLMExpert} (experts : List LLMExpert) (h : e ∈ registry experts) :
    e ∈ experts := by
  induction experts using List.reverseRecOn with
  | nil => exact h
  | append_singleton experts a ih =>
    unfold registry at ih h
    rw [List.foldl_append] at h
    rcases Keyed.mem_of_mem_put h with rfl | h
    · exact List.mem_append_right _ List.mem_cons_self
    · exact List.mem_append_left _ (ih h)

/-- Experts with different ids are all kept, in their order. -/
theorem registry_eq (experts : List LLMExpert) (h : (experts.map LLMExpert.expertId).Nodup) :
    registry experts = experts := by
  induction experts using List.reverseRecOn with
  | nil => rfl
  | append_singleton experts e ih =>
    rw [List.map_append, List.map_singleton, List.nodup_append] at h
    obtain ⟨hfirst, -, hnew⟩ := h
    have hnone : Keyed.find LLMExpert.expertId e.expertId experts = none := by
      refine Keyed.find_eq_none.mpr ?_
      intro a ha hkey
      exact hnew _ (List.mem_map_of_mem ha) _ List.mem_cons_self hkey
    have hrest := ih hfirst
    unfold registry at hrest ⊢
    rw [List.foldl_append, hrest, List.foldl_cons, List.foldl_nil, Keyed.put, hnone]

theorem make_experts {builderModel : Str} {experts : List LLMExpert} {panel : ReviewPanel}
    (h : ReviewPanel.make lib builderModel experts = .ok panel) : panel.experts = experts := by
  unfold ReviewPanel.make at h
  split_ifs at h
  obtain rfl := Except.ok.inj h
  rfl

/-- What a built panel is made of. -/
theorem build_experts {builderModel : Str} {models : List Str} {lenses : List Lens}
    {panel : ReviewPanel}
    (h : buildDiverseReviewerPanel lib builderModel models lenses = .ok panel) :
    ∀ e ∈ panel.experts, e.alwaysOn = true ∧ e.expertId = lit "llm-" ++ e.lens := by
  unfold buildDiverseReviewerPanel at h
  split at h
  · cases h
  · intro e he
    rw [make_experts h] at he
    obtain ⟨p, -, rfl⟩ := List.mem_map.mp he
    exact ⟨rfl, rfl⟩

/-! ## The slots of the tasks -/

/-- The slots that are filled, once all tasks have finished. -/
theorem gather_eq (tasks : List ExpertReport) (order : List Nat)
    (hall : ∀ i < tasks.length, i ∈ order) : Controller.gather tasks order = tasks.map some := by
  have hslots : ∀ (order : List Nat) (slots : List (Option ExpertReport)),
    slots.length = tasks.length →
      (order.foldl (fun slots i => slots.set i tasks[i]?) slots).length = tasks.length ∧
      ∀ i < tasks.length, (order.foldl (fun slots i => slots.set i tasks[i]?) slots)[i]? =
        if i ∈ order then some tasks[i]? else slots[i]? := by
    intro order
    induction order with
    | nil =>
      intro slots hlength
      exact ⟨hlength, fun i _ => by simp⟩
    | cons j order ih =>
      intro slots hlength
      obtain ⟨hlen, hget⟩ := ih (slots.set j tasks[j]?) (by rw [List.length_set, hlength])
      refine ⟨hlen, fun i hi => ?_⟩
      rw [List.foldl_cons, hget i hi]
      by_cases hmem : i ∈ order
      · rw [if_pos hmem, if_pos (List.mem_cons_of_mem _ hmem)]
      · rw [if_neg hmem, List.getElem?_set]
        by_cases hij : j = i
        · subst hij
          rw [if_pos rfl, if_pos (by omega), if_pos List.mem_cons_self]
        · rw [if_neg hij, if_neg]
          rintro hcons
          rcases List.mem_cons.mp hcons with rfl | hcons
          · exact hij rfl
          · exact hmem hcons
  obtain ⟨hlength, hget⟩ := hslots order (List.replicate tasks.length none) (by simp)
  unfold Controller.gather
  refine List.ext_getElem? fun i => ?_
  by_cases hi : i < tasks.length
  · rw [hget i hi, if_pos (hall i hi), List.getElem?_map, List.getElem?_eq_getElem hi]
    rfl
  · rw [List.getElem?_eq_none (by omega), List.getElem?_eq_none (by simp; omega)]

/-! ## The decision -/

variable {outputs : LLMExpert → Output}

variable {controller : Controller} {claim : Str}

/-- All reviewers of a registry are selected. -/
theorem experts_eq {context : Context} (hclaim : strip claim ≠ [])
    (halways : ∀ e ∈ controller.registry, e.alwaysOn = true) :
    controller.experts lib (strip claim) context = controller.registry := by
  unfold Controller.experts selectExperts
  rw [if_neg hclaim, List.filter_eq_self]
  intro e he
  simp [halways e he]

variable (lib outputs) in
theorem analyze_eq (context : Context) (hclaim : strip claim ≠ [])
    (halways : ∀ e ∈ controller.registry, e.alwaysOn = true) :
    controller.analyze lib outputs claim context = finalize controller.threshold (strip claim)
      (controller.registry.map fun e => e.safeAnalyze lib (outputs e))
      (controller.evidence (strip claim)) := by
  unfold Controller.analyze
  dsimp only
  rw [experts_eq hclaim halways]
  split
  · next hnil =>
    rw [hnil]
    rfl
  · rfl

/-- Running the reviewers at the same time gives the same decision. -/
theorem aanalyze_eq {context : Context} {order : List Nat} (hclaim : strip claim ≠ [])
    (halways : ∀ e ∈ controller.registry, e.alwaysOn = true)
    (hall : ∀ i < controller.registry.length, i ∈ order) :
    controller.aanalyze lib outputs claim context order = controller.analyze lib outputs claim
        context := by
  unfold Controller.aanalyze Controller.analyze
  dsimp only
  rw [experts_eq hclaim halways, gather_eq _ order (by simpa using hall)]
  simp [List.reduceOption]

/-- The id of a report is the id of the reviewer. -/
theorem safeAnalyze_expertId (e : LLMExpert) (out : Output) :
    (e.safeAnalyze lib out).expertId = e.expertId := by
  unfold LLMExpert.safeAnalyze
  split
  · next report hreport =>
    unfold LLMExpert.analyze at hreport
    split at hreport
    · cases hreport
    · obtain rfl := Except.ok.inj hreport
      rfl
    · dsimp only at hreport
      split at hreport
      · obtain rfl := Except.ok.inj hreport
        rfl
      · obtain ⟨q, -, hreport⟩ := bind_eq_ok.mp hreport
        obtain rfl := Except.ok.inj hreport
        rfl
  · rfl

/-- The verdict of a decision. -/
theorem finalize_verdict (threshold : ℚ) (claim : Str) (reports : List ExpertReport)
    (evidence : List Str) : (finalize threshold claim reports evidence).verdict =
      if ∃ r ∈ reports, r.verdict = block then block else if ∃ r ∈ reports,
      r.verdict = concern then conditional else approve := by
  unfold finalize synthesize
  simp only [List.mem_map, exists_exists_and_eq_and]

/-- **When a panel is complete and fail-closed**: no two of its reviewers have one lens, and every
output is clear. -/
theorem panel_iff (lib : MoieLib) (builderModel : Str) (models : List Str) (lenses : List Lens)
    (panel : ReviewPanel)
    (hbuild : buildDiverseReviewerPanel lib builderModel models lenses = .ok panel)
    (evidence : Str → List Str) (threshold : ℚ)
    (outputs : LLMExpert → Output) (claim : Str) (context : Context) (hclaim : strip claim ≠ []) :
    Panelled lib panel (panel.controller evidence threshold) outputs claim context ↔
      (panel.experts.map LLMExpert.lens).Nodup ∧ ∀ e ∈ panel.experts, (outputs e).Clear lib := by
  have hexperts := build_experts hbuild
  have halways : ∀ e ∈ (panel.controller evidence threshold).registry, e.alwaysOn = true :=
    fun e he =>
    (hexperts e (mem_registry _ he)).1
  have hids : panel.experts.map LLMExpert.expertId = (panel.experts.map LLMExpert.lens).map
      (lit "llm-" ++ ·) := by
    rw [List.map_map]
    exact List.map_congr_left fun e he => (hexperts e he).2
  have hreports :
    (Controller.analyze lib (panel.controller evidence threshold) outputs claim context).reports =
      (registry panel.experts).map fun e =>
      { e.safeAnalyze lib (outputs e) with evidenceHits := evidence (strip claim) } := by
    rw [analyze_eq lib outputs context hclaim halways]
    show List.map _ (List.map _ _) = _
    rw [List.map_map]
    rfl
  have hverdict := congrArg MoIEDecision.verdict (analyze_eq lib outputs context hclaim halways)
  rw [finalize_verdict] at hverdict
  constructor
  · intro h
    have hcomplete := h.complete
    rw [hreports, List.forall₂_map_right_iff] at hcomplete
    -- the ids of the reports are those of the registry, which has each id once
    have hsame : panel.experts.map LLMExpert.expertId = (registry panel.experts).map
        LLMExpert.expertId := by
      rw [← List.forall₂_eq_eq_eq, List.forall₂_map_left_iff, List.forall₂_map_right_iff]
      refine hcomplete.imp ?_
      rintro e r ⟨hid, -⟩
      exact (hid.symm.trans (safeAnalyze_expertId r _))
    have hnodup : (panel.experts.map LLMExpert.expertId).Nodup :=
      hsame ▸ registry_unique panel.experts
    refine ⟨List.Nodup.of_map _ (hids ▸ hnodup), ?_⟩
    rw [registry_eq _ hnodup, List.forall₂_same] at hcomplete
    intro e he
    have hreported := (hcomplete e he).2
    rw [← last_eq_counts, ← safeAnalyze_verdict e]
    exact hreported
  · rintro ⟨hlens, hclear⟩
    have hnodup : (panel.experts.map LLMExpert.expertId).Nodup := by
      rw [hids]
      exact hlens.map (List.append_right_injective _)
    rw [registry_eq _ hnodup] at hreports
    have hregistry : (panel.controller evidence threshold).registry = panel.experts :=
      registry_eq _ hnodup
    rw [hregistry] at hverdict
    have hcounts : ∀ e ∈ panel.experts, (e.safeAnalyze lib (outputs e)).verdict =
        (outputs e).counts lib := by
      intro e he
      rw [safeAnalyze_verdict, last_eq_counts]
      exact hclear e he
    have hblock : (∃ r ∈ panel.experts.map fun e => e.safeAnalyze lib (outputs e),
      r.verdict = block) ↔ ∃ e ∈ panel.experts, (outputs e).States lib block := by
      constructor
      · rintro ⟨r, hr, hblock⟩
        obtain ⟨e, he, rfl⟩ := List.mem_map.mp hr
        exact ⟨e, he, (counts_eq_iff (Or.inr rfl)).mp ((hcounts e he).symm.trans hblock)⟩
      · rintro ⟨e, he, hstates⟩
        exact ⟨_, List.mem_map_of_mem he,
          (hcounts e he).trans ((counts_eq_iff (Or.inr rfl)).mpr hstates)⟩
    obtain ⟨-, -, -, hblockConditional, hblockApprove, hconditionalApprove⟩ := verdict_ne
    refine ⟨?_, ?_, ?_, ?_⟩
    · rw [hreports, List.forall₂_map_right_iff, List.forall₂_same]
      intro e he
      exact ⟨safeAnalyze_expertId e _, hcounts e he⟩
    · rw [← hblock, hverdict]
      split_ifs with h1 h2
      · exact iff_of_true rfl h1
      · exact iff_of_false hblockConditional.symm h1
      · exact iff_of_false hblockApprove.symm h1
    · rw [hverdict]
      split_ifs with h1 h2
      · intro h
        exact absurd h hblockApprove
      · intro h
        exact absurd h hconditionalApprove
      · intro _ e he
        refine (counts_eq_iff (Or.inl rfl)).mp ?_
        rcases counts_cases (outputs e) with h | h | h
        · exact absurd ⟨_, List.mem_map_of_mem he, (hcounts e he).trans h⟩ h2
        · exact h
        · exact absurd ⟨_, List.mem_map_of_mem he, (hcounts e he).trans h⟩ h1
    · intro order horder
      refine aanalyze_eq hclaim halways ?_
      rw [hregistry]
      exact horder

/-! ## Two lenses and three models -/

/-- A language of ASCII words. -/
def plainWords : MoieLib :=
  ⟨fun s => s, fun c => decide ((48 ≤ c.val ∧ c.val ≤ 57) ∨ (65 ≤ c.val ∧ c.val ≤ 90) ∨
    (97 ≤ c.val ∧ c.val ≤ 122) ∨ c.val = 95), fun s => s, fun _ => []⟩

def twoLenses : List Lens := [⟨lit "a", lit "A", []⟩, ⟨lit "b", lit "B", []⟩]

/-- The outputs, by the model: `m1` blocks, the others see nothing. -/
def firstBlocks (e : LLMExpert) : Output :=
  if e.model = lit "m1" then .text (lit "VERDICT: BLOCK") else .text (lit "VERDICT: SAFE")

/-- Two reviewers with a lens each. -/
def pairPanel : ReviewPanel where
  builderModel := lit "m0"
  experts := [expertOf (lit "m1") ⟨lit "a", lit "A", []⟩,
    expertOf (lit "m2") ⟨lit "b", lit "B", []⟩]
  nonempty := List.cons_ne_nil _ _
  builder := by decide +kernel
  distinct := by decide +kernel

/-- Three reviewers for two lenses. -/
def cycledPanel : ReviewPanel where
  builderModel := lit "m0"
  experts := [expertOf (lit "m1") ⟨lit "a", lit "A", []⟩,
    expertOf (lit "m2") ⟨lit "b", lit "B", []⟩, expertOf (lit "m3") ⟨lit "a", lit "A", []⟩]
  nonempty := List.cons_ne_nil _ _
  builder := by decide +kernel
  distinct := by decide +kernel

/-- A panel passes its own check again. -/
theorem make_self (panel : ReviewPanel) :
    ReviewPanel.make lib panel.builderModel panel.experts = .ok panel := by
  unfold ReviewPanel.make
  rw [dif_neg panel.nonempty, dif_neg, dif_pos panel.distinct]
  rintro ⟨e, he, hmodel⟩
  exact panel.builder e he hmodel

theorem build_eq_ok {models : List Str} {lenses : List Lens} (panel : ReviewPanel)
    (hmodels : models ≠ [])
    (hexperts :
      (if models.length < lenses.length then pinLast models lenses else zipCycle models lenses).map
      (fun p => expertOf p.1 p.2) = panel.experts) :
    buildDiverseReviewerPanel lib panel.builderModel models lenses = .ok panel := by
  unfold buildDiverseReviewerPanel
  rw [if_neg hmodels]
  dsimp only
  rw [hexperts]
  exact make_self panel

theorem panel_pair : buildDiverseReviewerPanel plainWords (lit "m0")
    [lit "m1", lit "m2"] twoLenses = .ok pairPanel ∧ strip (lit "add a page") ≠ [] ∧
    Panelled plainWords pairPanel (pairPanel.controller (fun _ => []) (6 / 10)) firstBlocks
        (lit "add a page") ⟨[], false⟩ := by
  have hbuild : buildDiverseReviewerPanel plainWords (lit "m0") [lit "m1", lit "m2"] twoLenses =
      .ok pairPanel :=
    build_eq_ok pairPanel (by decide) (by decide +kernel)
  have hclaim : strip (lit "add a page") ≠ [] := by decide +kernel
  have hlines : verdictLines plainWords (lit "VERDICT: BLOCK") = [⟨block, []⟩] ∧
      verdictLines plainWords (lit "VERDICT: SAFE") = [⟨safe, []⟩] := by decide +kernel
  refine ⟨hbuild, hclaim, ?_⟩
  refine (panel_iff plainWords (lit "m0") [lit "m1", lit "m2"] twoLenses pairPanel hbuild
    (fun _ => []) (6 / 10) firstBlocks
    (lit "add a page") ⟨[], false⟩ hclaim).mpr ⟨by decide +kernel, ?_⟩
  intro e _
  unfold firstBlocks
  split
  · intro l hl _ l' hl'
    rw [hlines.1] at hl hl'
    obtain rfl := Option.some.inj hl
    obtain rfl := List.mem_singleton.mp hl'
    exact ⟨rfl, by decide +kernel⟩
  · intro l hl _ l' hl'
    rw [hlines.2] at hl hl'
    obtain rfl := Option.some.inj hl
    obtain rfl := List.mem_singleton.mp hl'
    exact ⟨rfl, by decide +kernel⟩

/-- The reviewer that blocks has the lens of a later one, so its report is missing and the panel
approves; and an echo of the contract counts as `SAFE`. -/
theorem not_panel :
    buildDiverseReviewerPanel plainWords (lit "m0") [lit "m1", lit "m2", lit "m3"] twoLenses =
    .ok cycledPanel ∧
    ¬ Panelled plainWords cycledPanel (cycledPanel.controller (fun _ => []) (6 / 10)) firstBlocks
      (lit "add a page") ⟨[], false⟩ ∧
    ((cycledPanel.controller (fun _ => []) (6 / 10)).analyze plainWords firstBlocks
      (lit "add a page") ⟨[], false⟩).verdict = approve ∧
    ¬ Panelled plainWords pairPanel (pairPanel.controller (fun _ => []) (6 / 10))
      (fun _ => .text (lit "VERDICT: SAFE|CONCERN|BLOCK")) (lit "add a page") ⟨[], false⟩ := by
  refine ⟨build_eq_ok cycledPanel (by decide) (by decide +kernel), ?_, by decide +kernel, ?_⟩
  · intro h
    have hlength := h.complete.length_eq
    exact absurd hlength (by decide +kernel)
  · intro h
    have happrove : ((pairPanel.controller (fun _ => []) (6 / 10)).analyze plainWords
        (fun _ => .text (lit "VERDICT: SAFE|CONCERN|BLOCK")) (lit "add a page") ⟨[], false⟩).verdict
        = approve := by decide +kernel
    have hstates := h.approved happrove _ List.mem_cons_self
    exact absurd hstates (by decide +kernel)

end Moie
