import Msb.Fabric.Context

/-!
# The context engine

`fabric/context_engine.py`: the context of a task, composed of eight layers. Each layer has a
retriever, and what it returns is cut to the cap of the layer; the layers are then included in their
order while the budget lasts. A retriever that fails leaves its layer empty.

* `compose_ledger` — the ledger has an entry for each layer, and it says what became of the text of
  the layer
* `compose_law` — the lengths of the layers for which the total budget holds
-/

namespace Fabric

open Py

/-! ## Layers -/

inductive Layer where
  | l0
  | l1
  | l2
  | l3
  | l4
  | l5
  | l6
  | l7
  deriving DecidableEq

namespace Layer

/-- `REQUIRED` -/
def required : Layer → Bool
  | l0 | l1 => true
  | l2 | l3 | l4 | l5 | l6 | l7 => false

/-- `OPTIONAL_ORDER` -/
def optionalOrder : List Layer := [l2, l3, l4, l5, l6, l7]

def all : List Layer := l0 :: l1 :: optionalOrder

end Layer

/-! ## Retrievers -/

/-- What a retriever that is called gives: a tuple, or a value and its text. -/
inductive Output where
  | tuple (text reason : Str)
  | value (text : Str)

/-- What is given for a layer. An exception has the name of its type. -/
inductive Override where
  | disabled
  | callable (out : Except Str Output)
  | literal (text : Str)

/-- What the retrievers of the engine find: a text and a reason, or an exception with its name and
its message. -/
structure Seams where
  version : Str
  host : Str
  found : Layer → Except (Str × Str) (Str × Str)

/-- The arguments of `compose`. -/
structure ComposeCall where
  task : Str
  tenant : Str
  session : Str
  budgetTokens : Option ℕ

/-- `_retrieve_l0` to `_retrieve_l7` -/
def Seams.builtin (seams : Seams) (call : ComposeCall) : Layer → Except (Str × Str) (Str × Str)
  | .l0 => .ok ((lit "\n").intercalate [
      lit "System: msb-v3 v" ++ seams.version ++ lit " (sovereign local-first runtime)",
      lit "Tenant: " ++ call.tenant ++ lit " | Session: " ++ call.session,
      lit "Host: " ++ seams.host,
      lit "Governance: operator-gated APIs; governed tools only; no silent fallback."], [])
  | .l1 => .ok (lit "Task: " ++ call.task, [])
  | .l7 => .ok ([], lit "research layer disabled by default (inject an L7 retriever to enable)")
  | layer => seams.found layer

structure Engine where
  overrides : Layer → Option Override
  defaultBudget : ℕ
  seams : Seams

/-- `_retrieve`: the text of a layer, and a reason. -/
def Engine.retrieve (e : Engine) (call : ComposeCall) (layer : Layer) : Str × Str :=
  match e.overrides layer with
  | some .disabled => ([], lit "disabled")
  | some (.callable (.ok (.tuple text reason))) => (text, reason)
  | some (.callable (.ok (.value text))) => (text, [])
  | some (.callable (.error name)) => ([], lit "retriever error: " ++ name)
  | some (.literal text) => (text, [])
  | none =>
    match e.seams.builtin call layer with
    | .ok found => found
    | .error (name, message) => ([], lit "error: " ++ name ++ lit ": " ++ message)

/-! ## Composing -/

structure LayerResult where
  layer : Layer
  text : Str
  requestedTokens : ℕ
  includedTokens : ℕ
  evicted : Bool
  reason : Str
  deriving DecidableEq

/-- The variables of `compose`. -/
structure Composing where
  results : List LayerResult
  included : List Str
  used : ℕ

/-- `reason or default` -/
def orElse (reason default : Str) : Str := if reason = [] then default else reason

def Composing.record (s : Composing) (r : LayerResult) : Composing :=
  { s with results := s.results ++ [r] }

def noContent (layer : Layer) (reason : Str) : LayerResult :=
  ⟨layer, [], 0, 0, false, orElse reason (lit "no content")⟩

/-- The text under the cap of its layer. -/
def capped (cap : ℕ) (text : Str) : Str := if cap < tokens text then text.take (cap * 4) else text

/-- `_add` -/
def add (budget : ℕ) (s : Composing) (layer : Layer) (cap : ℕ) (text reason : Str) : Composing :=
  if text = [] then s.record (noContent layer reason)
  else
    let body := capped cap text
    if budget < s.used + tokens body ∧ layer.required = false then
      s.record ⟨layer, [], tokens text, 0, true, lit "evicted: hard total budget exceeded"⟩
    else if budget < s.used + tokens body ∧ budget - s.used = 0 then
      s.record ⟨layer, [], tokens text, 0, true, lit "no room"⟩
    else
      -- A required layer shrinks to the room that is left.
      let body := if budget < s.used + tokens body then body.take ((budget - s.used) * 4) else body
      let reason := if cap < tokens text then lit "truncated to per-layer cap" else reason
      { results := s.results ++ [⟨layer, body, tokens text, tokens body, false, reason⟩]
        included := s.included ++ [body]
        used := s.used + tokens body }

structure ContextPackage where
  text : Str
  budgetTokens : ℕ
  totalTokens : ℕ
  naiveTokens : ℕ
  layers : List LayerResult

namespace Engine

variable (e : Engine) (call : ComposeCall)

/-- `budget_tokens or self.default_budget` -/
def budget : ℕ :=
  match call.budgetTokens with
  | none | some 0 => e.defaultBudget
  | some (n + 1) => n + 1

/-- A share for each of the two required layers, and a sixth of the budget for the others. -/
def cap (layer : Layer) : ℕ :=
  if layer.required then e.budget call / 2 else max 100 (e.budget call / 6)

def addRequired (s : Composing) (layer : Layer) : Composing :=
  add (e.budget call) s layer (e.cap call layer) (e.retrieve call layer).1 (e.retrieve call layer).2

def addOptional (s : Composing) (layer : Layer) : Composing :=
  if (e.retrieve call layer).1 = [] then s.record (noContent layer (e.retrieve call layer).2)
  else add (e.budget call) s layer (e.cap call layer) (e.retrieve call layer).1
    (e.retrieve call layer).2

def composed : Composing :=
  Layer.optionalOrder.foldl (e.addOptional call)
    (e.addRequired call (e.addRequired call ⟨[], [], 0⟩ .l0) .l1)

def compose : ContextPackage :=
  let text := joinParts (e.composed call).included
  let naive := joinParts (Layer.all.map fun layer => (e.retrieve call layer).1)
  ⟨text, e.budget call, tokens text, tokens (naive.take 64000), (e.composed call).results⟩

end Engine

/-! ## Adding a layer -/

/-- The entry of a layer, for what its retriever has returned. -/
structure Matches (layer : Layer) (cap : ℕ) (given reason : Str) (r : LayerResult) : Prop where
  layer_eq : r.layer = layer
  requested_eq : r.requestedTokens = if given = [] then 0 else tokens given
  included_eq : r.includedTokens = if r.text = [] then 0 else tokens r.text
  evicted_iff : r.evicted = true ↔ given ≠ [] ∧ r.text = []
  text_eq : r.text = [] ∨ r.text = capped cap given
  reason_eq : r.reason =
    if given = [] then orElse reason (lit "no content")
    else if r.text = [] then lit "evicted: hard total budget exceeded"
    else if cap < tokens given then lit "truncated to per-layer cap" else reason

/-- The entry that is added. -/
def entry (budget used : ℕ) (layer : Layer) (cap : ℕ) (text reason : Str) : LayerResult :=
  if text = [] then noContent layer reason
  else if budget < used + tokens (capped cap text) then
    ⟨layer, [], tokens text, 0, true, lit "evicted: hard total budget exceeded"⟩
  else ⟨layer, capped cap text, tokens text, tokens (capped cap text), false,
    if cap < tokens text then lit "truncated to per-layer cap" else reason⟩

/-- The variables after an entry has been added. -/
def Composing.next (s : Composing) (r : LayerResult) : Composing where
  results := s.results ++ [r]
  included := s.included ++ partIf (r.text ≠ []) r.text
  used := s.used + r.includedTokens

section

variable {budget cap used : ℕ} {layer : Layer} {text reason : Str} {s : Composing}

theorem capped_ne_nil (hcap : 0 < cap) (htext : text ≠ []) : capped cap text ≠ [] := by
  unfold capped
  split
  · intro hnil
    rcases List.take_eq_nil_iff.mp hnil with hzero | hnil
    · omega
    · exact htext hnil
  · exact htext

theorem tokens_capped_le (hcap : 0 < cap) : tokens (capped cap text) ≤ cap := by
  unfold capped
  split
  · unfold tokens
    rw [List.length_take]
    omega
  · omega

theorem entry_matches (hcap : 0 < cap) :
    Matches layer cap text reason (entry budget used layer cap text reason) := by
  unfold entry
  by_cases htext : text = []
  · rw [if_pos htext]
    exact ⟨rfl, by simp [noContent, htext], by simp [noContent], by simp [noContent, htext],
      Or.inl rfl, by simp [noContent, htext]⟩
  · have hbody := capped_ne_nil hcap htext
    rw [if_neg htext]
    split
    · exact ⟨rfl, by simp [htext], by simp, by simp [htext], Or.inl rfl, by simp [htext]⟩
    · exact ⟨rfl, by simp [htext], by simp [hbody], by simp [hbody],
        Or.inr rfl, by simp [htext, hbody]⟩

/-- What `_add` does, where a required layer has room under its cap. -/
theorem add_eq (hcap : 0 < cap) (hroom : layer.required = true → s.used + cap ≤ budget) :
    add budget s layer cap text reason = s.next (entry budget s.used layer cap text reason) := by
  have htokens : tokens (capped cap text) ≤ cap := tokens_capped_le hcap
  unfold add entry Composing.next
  by_cases htext : text = []
  · simp [htext, noContent, Composing.record, partIf]
  · have hbody := capped_ne_nil hcap htext
    rw [if_neg htext, if_neg htext]
    dsimp only
    by_cases hfull : budget < s.used + tokens (capped cap text)
    · have hoptional : layer.required = false := by
        rw [← Bool.not_eq_true]
        intro hrequired
        have := hroom hrequired
        omega
      rw [if_pos ⟨hfull, hoptional⟩, if_pos hfull]
      simp [Composing.record, partIf]
    · simp only [hfull, false_and, if_false]
      simp [partIf, hbody]

theorem entry_text_ne_nil (hcap : 0 < cap) (htext : text ≠ []) (hroom : used + cap ≤ budget) :
    (entry budget used layer cap text reason).text ≠ [] := by
  have htokens : tokens (capped cap text) ≤ cap := tokens_capped_le hcap
  unfold entry
  rw [if_neg htext, if_neg (by omega)]
  exact capped_ne_nil hcap htext

theorem entry_includedTokens_le (hcap : 0 < cap) :
    (entry budget used layer cap text reason).includedTokens ≤ cap := by
  have htokens : tokens (capped cap text) ≤ cap := tokens_capped_le hcap
  unfold entry
  split
  · exact Nat.zero_le _
  · split
    · exact Nat.zero_le _
    · exact htokens

end

/-! ## All layers -/

section

variable (e : Engine) (call : ComposeCall)

/-- The entry of a layer, where so many tokens are used. -/
def Engine.entry (used : ℕ) (layer : Layer) : LayerResult :=
  Fabric.entry (e.budget call) used layer (e.cap call layer) (e.retrieve call layer).1
    (e.retrieve call layer).2

def Engine.entries : ℕ → List Layer → List LayerResult
  | _, [] => []
  | used, layer :: layers =>
    e.entry call used layer :: Engine.entries
      (used + (e.entry call used layer).includedTokens) layers

/-- The variables after entries have been added. -/
def Composing.after (s : Composing) (rs : List LayerResult) : Composing where
  results := s.results ++ rs
  included := s.included ++ (rs.map LayerResult.text).filter fun t => t ≠ []
  used := s.used + (rs.map LayerResult.includedTokens).sum

variable {e call}

theorem cap_pos (h : 2 ≤ e.budget call) (layer : Layer) : 0 < e.cap call layer := by
  unfold Engine.cap
  split <;> omega

theorem after_cons (s : Composing) (r : LayerResult) (rs : List LayerResult) :
    s.after (r :: rs) = (s.next r).after rs := by
  unfold Composing.after Composing.next partIf
  by_cases htext : r.text = []
  · simp [htext, Nat.add_assoc]
  · simp [htext, Nat.add_assoc]

theorem addRequired_eq (h : 2 ≤ e.budget call) {s : Composing} {layer : Layer}
    (hroom : layer.required = true → s.used + e.cap call layer ≤ e.budget call) :
    e.addRequired call s layer = s.next (e.entry call s.used layer) :=
      add_eq (cap_pos h layer) hroom

theorem addOptional_eq (h : 2 ≤ e.budget call) {s : Composing} {layer : Layer}
    (hoptional : layer.required = false) :
    e.addOptional call s layer = s.next (e.entry call s.used layer) := by
  have hadd : e.addRequired call s layer = s.next (e.entry call s.used layer) :=
    addRequired_eq h fun hrequired => absurd (hoptional.symm.trans hrequired) (by decide)
  rw [← hadd]
  unfold Engine.addOptional Engine.addRequired
  split
  · rename_i htext
    rw [add, if_pos htext]
  · rfl

theorem foldl_addOptional (h : 2 ≤ e.budget call) {layers : List Layer}
    (hoptional : ∀ layer ∈ layers, layer.required = false)
    (s : Composing) :
    layers.foldl (e.addOptional call) s = s.after (e.entries call s.used layers) := by
  induction layers generalizing s with
  | nil => simp [Engine.entries, Composing.after]
  | cons layer layers ih =>
    rw [List.foldl_cons, addOptional_eq h (hoptional layer List.mem_cons_self),
      ih fun l hl => hoptional l (List.mem_cons_of_mem _ hl), Engine.entries, after_cons]
    rfl

/-- **The layers are added in their order**, each of the required ones within its share. -/
theorem composed_eq (h : 2 ≤ e.budget call) :
    e.composed call = Composing.after ⟨[], [], 0⟩ (e.entries call 0 Layer.all) := by
  have hshare : e.cap call .l0 = e.budget call / 2 := rfl
  have hshare' : e.cap call .l1 = e.budget call / 2 := rfl
  have hl0 : (e.entry call 0 .l0).includedTokens ≤ e.budget call / 2 :=
    entry_includedTokens_le (cap_pos h .l0)
  unfold Engine.composed
  rw [foldl_addOptional h (by decide), addRequired_eq h (s := ⟨[], [], 0⟩) fun _ => ?_,
    addRequired_eq h fun _ => ?_]
  · rw [Layer.all, Engine.entries, Engine.entries, after_cons, after_cons]
    rfl
  · show 0 + (e.entry call 0 .l0).includedTokens + e.cap call .l1 ≤ e.budget call
    omega
  · show 0 + e.cap call .l0 ≤ e.budget call
    omega

/-! ## The law -/

variable (e call)

/-- What a composed context is to be. -/
structure Composed : Prop where
  within : (e.compose call).totalTokens ≤ (e.compose call).budgetTokens
  required : ∀ r ∈ (e.compose call).layers, r.layer.required = true → (e.retrieve call r.layer).1 ≠
    [] → r.text ≠ []
  joined : (e.compose call).text = joinParts ((e.compose call).layers.map LayerResult.text)
  ledger : List.Forall₂ (fun layer r => Matches layer (e.cap call layer) (e.retrieve call layer).1
    (e.retrieve call layer).2 r) Layer.all (e.compose call).layers

/-- The lengths of the texts that are included, from the lengths of what is retrieved: a text that
is longer than its cap has the length of the cap, and a text is left out where it does not fit by
its tokens, rounded down. -/
def admitted (budget : ℕ) : ℕ → List (ℕ × ℕ) → List ℕ
  | _, [] => []
  | used, (length, cap) :: rest =>
    let shown := if cap < max 1 (length / 4) then cap * 4 else length
    if length = 0 ∨ budget < used + max 1 (shown / 4) then admitted budget used rest
    else shown :: admitted budget (used + max 1 (shown / 4)) rest

/-- The lengths and the caps of the layers. -/
def Engine.lengths (layers : List Layer) : List (ℕ × ℕ) :=
  layers.map fun layer => ((e.retrieve call layer).1.length, e.cap call layer)

variable {e call}

theorem length_capped {cap : ℕ} {text : Str} (hcap : 0 < cap) :
    (capped cap text).length = if cap < max 1 (text.length / 4) then cap * 4 else text.length := by
  unfold capped tokens
  split
  · rw [List.length_take]
    omega
  · rfl

theorem entries_lengths (h : 2 ≤ e.budget call) (used : ℕ) (layers : List Layer) :
    (((e.entries call used layers).map LayerResult.text).filter fun t => t ≠ []).map List.length =
      admitted (e.budget call) used (e.lengths call layers) := by
  induction layers generalizing used with
  | nil => rfl
  | cons layer layers ih =>
    have hlength : (capped (e.cap call layer) (e.retrieve call layer).1).length = _ :=
      length_capped (cap_pos h layer)
    rw [Engine.entries, Engine.lengths, List.map_cons, List.map_cons, admitted, ← hlength]
    show _ = if (e.retrieve call layer).1.length = 0 ∨
        e.budget call < used + tokens (capped (e.cap call layer) (e.retrieve call layer).1) then
      admitted (e.budget call) used (e.lengths call layers)
    else (capped (e.cap call layer) (e.retrieve call layer).1).length ::
      admitted (e.budget call) (used + tokens (capped (e.cap call layer) (e.retrieve call layer).1))
      (e.lengths call layers)
    by_cases htext : (e.retrieve call layer).1 = []
    · have hentry : e.entry call used layer = noContent layer (e.retrieve call layer).2 := by
        unfold Engine.entry Fabric.entry
        rw [if_pos htext]
      rw [hentry, if_pos (Or.inl (by rw [htext, List.length_nil])),
        List.filter_cons_of_neg (by simp [noContent])]
      exact ih used
    · have hne : (e.retrieve call layer).1.length ≠ 0 :=
        fun hzero => htext (List.length_eq_zero_iff.mp hzero)
      by_cases hfull : e.budget call < used + tokens
        (capped (e.cap call layer) (e.retrieve call layer).1)
      · have hentry : e.entry call used layer =
            ⟨layer, [], tokens (e.retrieve call layer).1, 0, true,
              lit "evicted: hard total budget exceeded"⟩ := by
          unfold Engine.entry Fabric.entry
          rw [if_neg htext, if_pos hfull]
        rw [hentry, if_pos (Or.inr hfull), List.filter_cons_of_neg (by simp)]
        exact ih used
      · have hentry : (e.entry call used layer).text = capped (e.cap call layer)
          (e.retrieve call layer).1 ∧
            (e.entry call used layer).includedTokens =
            tokens (capped (e.cap call layer) (e.retrieve call layer).1) := by
          unfold Engine.entry Fabric.entry
          rw [if_neg htext, if_neg hfull]
          exact ⟨rfl, rfl⟩
        have hbody := capped_ne_nil (cap_pos h layer) htext
        rw [hentry.1, hentry.2, if_neg (not_or.mpr ⟨hne, hfull⟩),
          List.filter_cons_of_pos (by simpa using hbody), List.map_cons]
        exact congrArg _ (ih _)

/-- **The text is that of the layers, joined in their order.** -/
theorem compose_text (h : 2 ≤ e.budget call) :
    (e.compose call).text = joinParts ((e.compose call).layers.map LayerResult.text) := by
  show joinParts (e.composed call).included = joinParts
    ((e.composed call).results.map LayerResult.text)
  rw [composed_eq h]
  exact joinParts_filter _

/-- The tokens of the joined text. -/
theorem totalTokens_le_iff (h : 2 ≤ e.budget call) : (e.compose call).totalTokens ≤
    (e.compose call).budgetTokens ↔
    ((admitted (e.budget call) 0 (e.lengths call Layer.all)).map (· + 2)).sum - 2 <
    4 * (e.budget call + 1) := by
  have hjoined : (e.compose call).text.length =
      ((admitted (e.budget call) 0 (e.lengths call Layer.all)).map (· + 2)).sum - 2 := by
    rw [compose_text h, ← entries_lengths h, List.map_map]
    show (joinParts ((e.composed call).results.map LayerResult.text)).length = _
    rw [composed_eq h]
    exact length_intercalate _ _
  show max 1 ((e.compose call).text.length / 4) ≤ e.budget call ↔ _
  rw [hjoined]
  omega

theorem entries_ledger (h : 2 ≤ e.budget call) (used : ℕ) (layers : List Layer) :
    List.Forall₂ (fun layer r => Matches layer (e.cap call layer) (e.retrieve call layer).1
      (e.retrieve call layer).2 r) layers (e.entries call used layers) := by
  induction layers generalizing used with
  | nil => exact .nil
  | cons layer layers ih => exact .cons (entry_matches (cap_pos h layer)) (ih _)

/-- **The ledger has an entry for each layer**, and each entry is that of what the layer has been
given. -/
theorem compose_ledger (h : 2 ≤ e.budget call) :
    List.Forall₂ (fun layer r => Matches layer (e.cap call layer) (e.retrieve call layer).1
      (e.retrieve call layer).2 r) Layer.all (e.compose call).layers := by
  show List.Forall₂ _ _ (e.composed call).results
  rw [composed_eq h]
  exact entries_ledger h 0 Layer.all

theorem entry_layer (used : ℕ) (layer : Layer) : (e.entry call used layer).layer = layer := by
  unfold Engine.entry Fabric.entry
  split
  · rfl
  · split <;> rfl

theorem layer_of_mem_entries {used : ℕ} {layers : List Layer} {r : LayerResult}
    (hr : r ∈ e.entries call used layers) : r.layer ∈ layers := by
  induction layers generalizing used with
  | nil => cases hr
  | cons layer layers ih =>
    rw [Engine.entries] at hr
    rcases List.mem_cons.mp hr with rfl | hr
    · rw [entry_layer]
      exact List.mem_cons_self
    · exact List.mem_cons_of_mem _ (ih hr)

/-- **The required layers are included**: each has a share of the budget. -/
theorem compose_required (h : 2 ≤ e.budget call) : ∀ r ∈ (e.compose call).layers,
    r.layer.required = true → (e.retrieve call r.layer).1 ≠ [] → r.text ≠ [] := by
  have hl0 : (e.entry call 0 .l0).includedTokens ≤ e.budget call / 2 :=
    entry_includedTokens_le (cap_pos h .l0)
  have hshare : e.cap call .l0 = e.budget call / 2 := rfl
  have hshare' : e.cap call .l1 = e.budget call / 2 := rfl
  intro r hr hrequired htext
  have hmem : r ∈ e.entries call 0 Layer.all := by
    have hresults : r ∈ (e.composed call).results := hr
    rw [composed_eq h] at hresults
    exact hresults
  rw [Layer.all, Engine.entries, Engine.entries] at hmem
  rcases List.mem_cons.mp hmem with rfl | hmem
  · rw [entry_layer] at htext
    exact entry_text_ne_nil (cap_pos h .l0) htext (by omega)
  · rcases List.mem_cons.mp hmem with rfl | hmem
    · rw [entry_layer] at htext
      exact entry_text_ne_nil (cap_pos h .l1) htext (by omega)
    · have hoptional : ∀ layer ∈ Layer.optionalOrder, layer.required = false := by decide
      rw [hoptional _ (layer_of_mem_entries hmem)] at hrequired
      cases hrequired

/-- **When a composed context is within its budget**, and what holds of it always. -/
theorem compose_law (e : Engine) (call : ComposeCall) (h : 2 ≤ e.budget call) : Composed e call ↔
    ((admitted (e.budget call) 0 (e.lengths call Layer.all)).map (· + 2)).sum - 2 <
    4 * (e.budget call + 1) :=
  ⟨fun hcomposed => (totalTokens_le_iff h).mp hcomposed.within, fun hlengths =>
    ⟨(totalTokens_le_iff h).mpr hlengths, compose_required h, compose_text h, compose_ledger h⟩⟩

end

/-- An engine with a text of its own for the first two layers, and none for the others. -/
def twoLayers (l0 l1 : Str) : Engine where
  overrides
    | .l0 => some (.literal l0)
    | .l1 => some (.literal l1)
    | _ => some .disabled
  defaultBudget := 2
  seams := ⟨[], [], fun _ => .ok ([], [])⟩

/-- Two layers of seven characters each count as two tokens, and their text has four. -/
theorem total_exceeded :
    ¬ Composed (twoLayers (List.replicate 7 97) (List.replicate 7 98)) ⟨[], [], [], none⟩ := by
  intro h
  have hwithin := h.within
  revert hwithin
  decide

theorem compose_law_twoLayers :
    Composed (twoLayers (List.replicate 4 97) (List.replicate 4 98)) ⟨[], [], [], none⟩ :=
  (compose_law (twoLayers (List.replicate 4 97) (List.replicate 4 98)) ⟨[], [], [], none⟩
    (by decide)).mpr (by decide)

end Fabric
