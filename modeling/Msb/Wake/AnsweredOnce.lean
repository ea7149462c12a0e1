import Msb.Infra.Run
import Msb.Wake.Store

/-!
# Is every message answered once?

A cycle selects the pending rows without claiming them, and it writes an outcome without looking at
the row. So two cycles that overlap both take up a message, and the later outcome overwrites the
earlier one.

* `Inv.step` — what a step that nothing disturbs keeps
* `answered_once_iff` — the runs in which every message is answered once
-/

namespace Wake

open Py Machine

/-! ## What is claimed -/

/-- The replies to a message. -/
def WakeStore.replies (s : WakeStore) (msgId : Str) : List OutboxRow :=
  s.outbox.filter fun o => o.inReplyTo = some msgId

/-- One reply and one turn at most, and a message is done where its response is a reply to it. -/
structure Once (s : WakeStore) : Prop where
  reply : ∀ msgId, (s.replies msgId).length ≤ 1
  turn : ∀ msgId, s.turns.count msgId ≤ 1
  done_iff : ∀ r ∈ s.inbox, r.status = .done ↔ ∃ o ∈ s.outbox, r.responseId = some o.id ∧
    o.inReplyTo = some r.id

/-- What is done or failed keeps its status, its error and its reply. -/
def Kept (s t : WakeStore) : Prop :=
  ∀ r ∈ s.inbox, r.status ≠ .pending → ∃ r' ∈ t.inbox, r'.id = r.id ∧ r'.status = r.status ∧
    r'.responseId = r.responseId ∧ r'.error = r.error ∧ t.replies r.id = s.replies r.id

variable {ι : Type} [DecidableEq ι] (T : ErrorTexts)

/-- In every state of the run, and from there on. -/
def AnsweredOnce (es : List (Event ι)) : Prop :=
  ∀ fs gs s t, fs ++ gs <+: es → run (System.step T) System.init fs = some s →
    run (System.step T) s gs = some t → Once t.store ∧ Kept s.store t.store

/-! ## The condition -/

/-- The cycle has the message in hand, or it has written its outcome. -/
def Cycle.Took (c : Cycle) (msgId : Str) : Prop :=
  c.phase.hand = some msgId ∨ msgId ∈ c.processed ∨ msgId ∈ c.failed.map Prod.fst

/-- A reply is written for a pending message only. -/
def WakeStore.MayRespond (s : WakeStore) (env : CallEnv) (msgId : Str) : Prop :=
  env.fault = none → (∀ o ∈ s.outbox, o.id ≠ lit "wake-" ++ env.newId) → ∀ r ∈ s.inbox,
    r.id = msgId → r.status = .pending

/-- An error is written for a pending message only, if it is not there already. -/
def WakeStore.MayFail (s : WakeStore) (env : CallEnv) (msgId error : Str) : Prop :=
  env.fault = none → ∀ r ∈ s.inbox, r.id = msgId →
    r.status = .pending ∨ (r.status = .failed ∧ r.error = some (error.take 500))

/-- Nothing disturbs the next step: a message is taken up that no cycle has or had in hand, and an
outcome is written while the message is pending. -/
def Undisturbed (s : System ι) : Event ι → Prop
  | .respond env msgId _ _ => s.store.MayRespond env msgId
  | .markFailed env msgId error => s.store.MayFail env msgId error
  | .step i env => ∀ c, s.cycles i = some c →
    match c.phase with
    | .choosing (msg :: _) => ∀ j d, s.cycles j = some d → ¬ d.Took msg.id
    | .responding msg _ _ => s.store.MayRespond env.toCallEnv msg.id
    | .failing msg error _ => s.store.MayFail env.toCallEnv msg.id error
    | _ => True
  | _ => True

/-! ## The tables -/

section Tables

/-- A row that is done has one reply, and the others have none. -/
def Settled (s : WakeStore) (r : InboxRow) : Prop :=
  (r.status = .done ∧ ∃ o, s.replies r.id = [o] ∧ r.responseId = some o.id) ∨
    (r.status ≠ .done ∧ s.replies r.id = [] ∧ r.responseId = none)

structure Tables (s : WakeStore) : Prop where
  unique : Keyed.Unique InboxRow.id s.inbox
  known : ∀ o ∈ s.outbox, ∀ msgId, o.inReplyTo = some msgId → ∃ r ∈ s.inbox, r.id = msgId
  settled : ∀ r ∈ s.inbox, Settled s r

variable {s t u : WakeStore} {env : CallEnv} {msgId text sender source error : Str} {r : InboxRow}

theorem mem_replies {o : OutboxRow} :
    o ∈ s.replies msgId ↔ o ∈ s.outbox ∧ o.inReplyTo = some msgId := by
  unfold WakeStore.replies
  rw [List.mem_filter, decide_eq_true_eq]

theorem replies_of_outbox (h : t.outbox = s.outbox) : t.replies msgId = s.replies msgId := by
  unfold WakeStore.replies
  rw [h]

theorem replies_concat {o : OutboxRow} (h : t.outbox = s.outbox ++ [o]) :
    t.replies msgId = s.replies msgId ++ if o.inReplyTo = some msgId then [o] else [] := by
  unfold WakeStore.replies
  rw [h, List.filter_append]
  by_cases ho : o.inReplyTo = some msgId <;> simp [ho]

theorem Settled.congr (h : Settled s r) (hreplies : t.replies r.id = s.replies r.id) :
    Settled t r := by
  unfold Settled
  rw [hreplies]
  exact h

theorem Settled.of_ne_done (h : Settled s r) (hr : r.status ≠ .done) :
    s.replies r.id = [] ∧ r.responseId = none := by
  rcases h with ⟨hdone, -⟩ | ⟨-, hrest⟩
  · exact absurd hdone hr
  · exact hrest

theorem Tables.replies_eq_nil (h : Tables s) (hnew : ∀ r ∈ s.inbox, r.id ≠ msgId) :
    s.replies msgId = [] := by
  rw [List.eq_nil_iff_forall_not_mem]
  intro o ho
  obtain ⟨hmem, hreply⟩ := mem_replies.mp ho
  obtain ⟨r, hr, hid⟩ := h.known o hmem msgId hreply
  exact hnew r hr hid

theorem Tables.once (h : Tables s) (hturns : s.turns.Nodup) : Once s := by
  refine ⟨fun msgId => ?_, fun msgId => List.nodup_iff_count_le_one.mp hturns msgId, fun r hr => ?_⟩
  · by_cases hknown : ∃ r ∈ s.inbox, r.id = msgId
    · obtain ⟨r, hr, rfl⟩ := hknown
      rcases h.settled r hr with ⟨-, o, ho, -⟩ | ⟨-, hnil, -⟩
      · rw [ho]
        exact le_refl 1
      · rw [hnil]
        exact Nat.zero_le 1
    · rw [h.replies_eq_nil fun r hr hid => hknown ⟨r, hr, hid⟩]
      exact Nat.zero_le 1
  · rcases h.settled r hr with ⟨hdone, o, ho, hresponse⟩ | ⟨hnot, -, hnone⟩
    · refine iff_of_true hdone ?_
      have hmem : o ∈ s.replies r.id := by
        rw [ho]
        exact List.mem_cons_self
      exact ⟨o, (mem_replies.mp hmem).1, hresponse, (mem_replies.mp hmem).2⟩
    · refine iff_of_false hnot ?_
      rintro ⟨o, -, hresponse, -⟩
      rw [hnone] at hresponse
      cases hresponse

theorem Kept.refl (s : WakeStore) : Kept s s := fun r hr _ => ⟨r, hr, rfl, rfl, rfl, rfl, rfl⟩

theorem Kept.trans (h : Kept s t) (h' : Kept t u) : Kept s u := by
  intro r hr hstatus
  obtain ⟨r', hr', hid, hstatus', hresponse, herror, hreplies⟩ := h r hr hstatus
  have hdone : r'.status ≠ .pending := by
    rw [hstatus']
    exact hstatus
  obtain ⟨r'', hr'', hid', hstatus'', hresponse', herror', hreplies'⟩ := h' r' hr' hdone
  rw [hid] at hid' hreplies'
  exact ⟨r'', hr'', hid', hstatus''.trans hstatus', hresponse'.trans hresponse,
    herror'.trans herror, hreplies'.trans hreplies⟩

/-- Where the rows stay, and no reply is added to them. -/
theorem Kept.of_subset (hinbox : ∀ r ∈ s.inbox, r ∈ t.inbox)
    (hreplies : ∀ r ∈ s.inbox, t.replies r.id = s.replies r.id) :
    Kept s t := fun r hr _ => ⟨r, hinbox r hr, rfl, rfl, rfl, rfl, hreplies r hr⟩

/-! ### An update of one row -/

variable {f : InboxRow → InboxRow}

theorem mem_update :
    r ∈ s.update msgId f ↔ ∃ r' ∈ s.inbox, (if r'.id = msgId then f r' else r') = r := by
  unfold WakeStore.update
  exact List.mem_map

theorem mem_update_of_ne (hr : r ∈ s.inbox) (hid : r.id ≠ msgId) : r ∈ s.update msgId f :=
  mem_update.mpr ⟨r, hr, if_neg hid⟩

theorem mem_update_of_eq (hr : r ∈ s.inbox) (hid : r.id = msgId) : f r ∈ s.update msgId f :=
  mem_update.mpr ⟨r, hr, if_pos hid⟩

theorem ids_update (hf : ∀ r, (f r).id = r.id) :
    (s.update msgId f).map InboxRow.id = s.inbox.map InboxRow.id := by
  unfold WakeStore.update
  rw [List.map_map]
  refine List.map_congr_left fun r _ => ?_
  simp only [Function.comp_apply]
  split
  · exact hf r
  · rfl

theorem exists_update (hf : ∀ r, (f r).id = r.id) (h : ∃ r ∈ s.inbox, r.id = text) :
    ∃ r ∈ s.update msgId f, r.id = text := by
  rw [← List.mem_map] at h ⊢
  rw [ids_update hf]
  exact h

/-! ### The calls -/

theorem post_cases : (s.post env text sender).2 = s ∨
    ∃ row : InboxRow, row.status = .pending ∧ row.responseId = none ∧
    (∀ r ∈ s.inbox, r.id ≠ row.id) ∧
      (s.post env text sender).2 = { s with inbox := s.inbox ++ [row] } := by
  unfold WakeStore.post
  dsimp only
  split
  · exact Or.inl rfl
  · split
    · exact Or.inl rfl
    · split
      · exact Or.inl rfl
      · next hnew => exact Or.inr ⟨_, rfl, rfl, fun r hr hid => hnew ⟨r, hr, hid⟩, rfl⟩

variable (env text sender) in
theorem Tables.post (h : Tables s) : Tables (s.post env text sender).2 ∧
    Kept s (s.post env text sender).2 ∧ (s.post env text sender).2.turns = s.turns := by
  rcases post_cases with heq | ⟨row, hstatus, hresponse, hnew, heq⟩
  · rw [heq]
    exact ⟨h, Kept.refl s, rfl⟩
  · rw [heq]
    refine ⟨⟨?_, ?_, ?_⟩, Kept.of_subset (fun r hr => List.mem_append_left _ hr) (fun _ _ => rfl),
      rfl⟩
    · show ((s.inbox ++ [row]).map InboxRow.id).Nodup
      rw [List.map_append, List.map_singleton]
      refine List.nodup_append.mpr ⟨h.unique, List.nodup_singleton _, ?_⟩
      intro id hid id' hid' heq'
      obtain ⟨r, hr, rfl⟩ := List.mem_map.mp hid
      rw [List.mem_singleton.mp hid'] at heq'
      exact hnew r hr heq'
    · intro o ho msgId hreply
      obtain ⟨r, hr, hid⟩ := h.known o ho msgId hreply
      exact ⟨r, List.mem_append_left _ hr, hid⟩
    · intro r hr
      rcases List.mem_append.mp hr with hr | hr
      · exact (h.settled r hr).congr rfl
      · obtain rfl := List.mem_singleton.mp hr
        refine Or.inr ⟨?_, h.replies_eq_nil hnew, hresponse⟩
        rw [hstatus]
        decide

theorem notify_cases : (s.notify env text source).2 = s ∨
    ∃ row : OutboxRow, row.inReplyTo = none ∧ (s.notify env text source).2 =
    { s with outbox := s.outbox ++ [row] } := by
  unfold WakeStore.notify
  dsimp only
  split
  · exact Or.inl rfl
  · split
    · exact Or.inl rfl
    · split
      · exact Or.inl rfl
      · exact Or.inr ⟨_, rfl, rfl⟩

variable (env text source) in
theorem Tables.notify (h : Tables s) : Tables (s.notify env text source).2 ∧
    Kept s (s.notify env text source).2 ∧ (s.notify env text source).2.turns = s.turns := by
  rcases notify_cases with heq | ⟨row, hnone, heq⟩
  · rw [heq]
    exact ⟨h, Kept.refl s, rfl⟩
  · rw [heq]
    have hreplies : ∀ msgId, WakeStore.replies { s with outbox := s.outbox ++ [row] } msgId =
        s.replies msgId := by
      intro msgId
      rw [replies_concat rfl, hnone]
      simp
    refine ⟨⟨h.unique, ?_, fun r hr => (h.settled r hr).congr (hreplies r.id)⟩,
      Kept.of_subset (fun r hr => hr) (fun r _ => hreplies r.id), rfl⟩
    intro o ho msgId hreply
    rcases List.mem_append.mp ho with ho | ho
    · exact h.known o ho msgId hreply
    · rw [List.mem_singleton.mp ho, hnone] at hreply
      cases hreply

/-- The reply goes into both tables, or nothing is written. -/
theorem respond_cases :
    (∃ e, s.respond env msgId text source = (.error e, s) ∧
      ¬ (env.fault = none ∧ (∀ o ∈ s.outbox, o.id ≠ lit "wake-" ++ env.newId) ∧ ∃ r ∈ s.inbox,
        r.id = msgId)) ∨
    ∃ (row : OutboxRow) (f : InboxRow → InboxRow) (t : WakeStore), s.respond env msgId text source =
      (.ok row, t) ∧
      t.outbox = s.outbox ++ [row] ∧ t.inbox = s.update msgId f ∧ t.turns = s.turns ∧
      row.inReplyTo = some msgId ∧
      (∀ r, (f r).id = r.id ∧ (f r).status = .done ∧ (f r).responseId = some row.id) ∧
      env.fault = none ∧ (∀ o ∈ s.outbox, o.id ≠ lit "wake-" ++ env.newId) ∧ ∃ r ∈ s.inbox,
          r.id = msgId := by
  unfold WakeStore.respond
  dsimp only
  split
  · next e he =>
    refine Or.inl ⟨e, rfl, fun h => ?_⟩
    rw [h.1] at he
    cases he
  · next hfault =>
    split
    · next hknown =>
      split
      · next hused =>
        refine Or.inl ⟨_, rfl, fun h => ?_⟩
        obtain ⟨o, ho, hid⟩ := hused
        exact h.2.1 o ho hid
      · next hnew =>
        exact Or.inr ⟨_, _, _, rfl, rfl, rfl, rfl, rfl, fun r => ⟨rfl, rfl, rfl⟩, hfault,
          fun o ho hid => hnew ⟨o, ho, hid⟩, hknown⟩
    · next hunknown => exact Or.inl ⟨_, rfl, fun h => hunknown h.2.2⟩

theorem turns_respond : (s.respond env msgId text source).2.turns = s.turns := by
  rcases respond_cases with ⟨e, heq, -⟩ | ⟨row, f, t, heq, -, -, hturns, -⟩
  · rw [heq]
  · rw [heq]
    exact hturns

variable (text source) in
theorem Tables.respond (h : Tables s) (hmay : s.MayRespond env msgId) :
    Tables (s.respond env msgId text source).2 ∧ Kept s (s.respond env msgId text source).2 := by
  rcases respond_cases with ⟨e, heq, -⟩ | ⟨row, f, t, heq, houtbox, hinbox, -, hreply, hf, hfault,
    hfresh, hknown⟩
  · rw [heq]
    exact ⟨h, Kept.refl s⟩
  · rw [heq]
    have hpending := hmay hfault hfresh
    have hkeys : ∀ r, (f r).id = r.id := fun r => (hf r).1
    have hreplies : ∀ r : InboxRow, r.id ≠ msgId → t.replies r.id = s.replies r.id := by
      intro r hr
      rw [replies_concat houtbox, hreply, if_neg fun heq => hr (Option.some.inj heq).symm,
        List.append_nil]
    refine ⟨⟨?_, ?_, ?_⟩, ?_⟩
    · show (t.inbox.map InboxRow.id).Nodup
      rw [hinbox, ids_update hkeys]
      exact h.unique
    · intro o ho m hm
      rw [hinbox]
      rw [houtbox] at ho
      rcases List.mem_append.mp ho with ho | ho
      · exact exists_update hkeys (h.known o ho m hm)
      · rw [List.mem_singleton.mp ho, hreply] at hm
        obtain rfl := Option.some.inj hm
        exact exists_update hkeys hknown
    · intro r hr
      rw [hinbox] at hr
      obtain ⟨r', hr', rfl⟩ := mem_update.mp hr
      split
      · next hid =>
        -- the row was pending, so it had no reply yet
        have hstatus : r'.status ≠ .done := by
          rw [hpending r' hr' hid]
          decide
        obtain ⟨hnil, -⟩ := (h.settled r' hr').of_ne_done hstatus
        refine Or.inl ⟨(hf r').2.1, row, ?_, (hf r').2.2⟩
        rw [hkeys, replies_concat houtbox, hnil, hreply, hid]
        simp
      · next hid => exact (h.settled r' hr').congr (hreplies r' hid)
    · intro r hr hstatus
      have hid : r.id ≠ msgId := fun hid => hstatus (hpending r hr hid)
      refine ⟨r, ?_, rfl, rfl, rfl, rfl, hreplies r hid⟩
      rw [hinbox]
      exact mem_update_of_ne hr hid

/-- A second reply is one too many. -/
theorem mayRespond_of_kept (h : Kept s (s.respond env msgId text source).2) :
    s.MayRespond env msgId := by
  intro hfault hfresh r hr hid
  rcases respond_cases with ⟨e, heq, hnot⟩ | ⟨row, f, t, heq, houtbox, -, -, hreply, -⟩
  · exact absurd ⟨hfault, hfresh, r, hr, hid⟩ hnot
  · rw [heq] at h
    by_contra hstatus
    obtain ⟨r', -, -, -, -, -, hreplies⟩ := h r hr hstatus
    rw [hid, replies_concat houtbox, if_pos hreply] at hreplies
    have hlength := congrArg List.length hreplies
    rw [List.length_append, List.length_singleton] at hlength
    omega

theorem markFailed_cases :
    (∃ e, s.markFailed env msgId error = (.error e, s) ∧ env.fault ≠ none) ∨
    ∃ (f : InboxRow → InboxRow) (t : WakeStore), s.markFailed env msgId error = (.ok (), t) ∧
      t.outbox = s.outbox ∧ t.inbox = s.update msgId f ∧ t.turns = s.turns ∧
      (∀ r, (f r).id = r.id ∧ (f r).status = .failed ∧ (f r).responseId = r.responseId ∧
        (f r).error = some (error.take 500)) ∧
      env.fault = none := by
  unfold WakeStore.markFailed
  split
  · next e he =>
    refine Or.inl ⟨e, rfl, fun h => ?_⟩
    rw [h] at he
    cases he
  · next hfault => exact Or.inr ⟨_, _, rfl, rfl, rfl, rfl, fun r => ⟨rfl, rfl, rfl, rfl⟩, hfault⟩

theorem turns_markFailed : (s.markFailed env msgId error).2.turns = s.turns := by
  rcases markFailed_cases with ⟨e, heq, -⟩ | ⟨f, t, heq, -, -, hturns, -⟩
  · rw [heq]
  · rw [heq]
    exact hturns

theorem Tables.markFailed (h : Tables s) (hmay : s.MayFail env msgId error) :
    Tables (s.markFailed env msgId error).2 ∧ Kept s (s.markFailed env msgId error).2 := by
  rcases markFailed_cases with ⟨e, heq, -⟩ | ⟨f, t, heq, houtbox, hinbox, -, hf, hfault⟩
  · rw [heq]
    exact ⟨h, Kept.refl s⟩
  · rw [heq]
    have hpending := hmay hfault
    have hkeys : ∀ r, (f r).id = r.id := fun r => (hf r).1
    have hreplies : ∀ m, t.replies m = s.replies m := fun m => replies_of_outbox houtbox
    refine ⟨⟨?_, ?_, ?_⟩, ?_⟩
    · show (t.inbox.map InboxRow.id).Nodup
      rw [hinbox, ids_update hkeys]
      exact h.unique
    · intro o ho m hm
      rw [hinbox]
      rw [houtbox] at ho
      exact exists_update hkeys (h.known o ho m hm)
    · intro r hr
      rw [hinbox] at hr
      obtain ⟨r', hr', rfl⟩ := mem_update.mp hr
      split
      · next hid =>
        have hstatus : r'.status ≠ .done := by
          rcases hpending r' hr' hid with hr' | ⟨hr', -⟩ <;> rw [hr'] <;> decide
        obtain ⟨hnil, hnone⟩ := (h.settled r' hr').of_ne_done hstatus
        obtain ⟨hid', hfailed, hresponse, -⟩ := hf r'
        refine Or.inr ⟨?_, ?_, hresponse.trans hnone⟩
        · rw [hfailed]
          decide
        · rw [hid', hreplies]
          exact hnil
      · exact (h.settled r' hr').congr (hreplies r'.id)
    · intro r hr hstatus
      rw [hinbox]
      by_cases hid : r.id = msgId
      · obtain ⟨hfailed, herror⟩ := (hpending r hr hid).resolve_left hstatus
        obtain ⟨hid', hfailed', hresponse, herror'⟩ := hf r
        exact ⟨f r, mem_update_of_eq hr hid, hid', hfailed'.trans hfailed.symm, hresponse,
          herror'.trans herror.symm, hreplies r.id⟩
      · exact ⟨r, mem_update_of_ne hr hid, rfl, rfl, rfl, rfl, hreplies r.id⟩

theorem mayFail_of_kept (h : Tables s) (hkept : Kept s (s.markFailed env msgId error).2) :
    s.MayFail env msgId error := by
  intro hfault r hr hid
  rcases markFailed_cases with ⟨e, heq, hnot⟩ | ⟨f, t, heq, -, hinbox, -, hf, -⟩
  · exact absurd hfault hnot
  · rw [heq] at hkept
    by_contra hbad
    have hstatus : r.status ≠ .pending := fun hpending => hbad (Or.inl hpending)
    obtain ⟨r', hr', hid', hstatus', -, herror', -⟩ := hkept r hr hstatus
    have hunique : Keyed.Unique InboxRow.id t.inbox := by
      show (t.inbox.map InboxRow.id).Nodup
      rw [hinbox, ids_update fun r => (hf r).1]
      exact h.unique
    obtain ⟨hfid, hfailed, -, hferror⟩ := hf r
    have hmem : f r ∈ t.inbox := by
      rw [hinbox]
      exact mem_update_of_eq hr hid
    obtain rfl := hunique.eq_of_mem hr' hmem (hid'.trans hfid.symm)
    exact hbad (Or.inr ⟨hstatus'.symm.trans hfailed, herror'.symm.trans hferror⟩)

end Tables

/-! ## The cycles -/

section Cycles

variable {T} {c c' : Cycle} {env : StepEnv} {s t : WakeStore}

/-- **What a step of a cycle does**: it takes up a message, writes an outcome, or leaves the tables
alone. -/
theorem Cycle.step_cases (h : c.step T env s = some (c', t)) :
    (∃ msg rest, c.phase = .choosing (msg :: rest) ∧ t = { s with turns := s.turns ++ [msg.id] } ∧
      ∀ m, c'.Took m ↔ c.Took m ∨ m = msg.id) ∨
    (∃ msg text rest, c.phase = .responding msg text rest ∧
      t = (s.respond env.toCallEnv msg.id text (lit "wake")).2 ∧ ∀ m, c'.Took m ↔ c.Took m) ∨
    (∃ msg error rest, c.phase = .failing msg error rest ∧
      t = (s.markFailed env.toCallEnv msg.id error).2 ∧ ∀ m, c'.Took m ↔ c.Took m) ∨
    ((∀ msg rest, c.phase ≠ .choosing (msg :: rest)) ∧
      (∀ msg text rest, c.phase ≠ .responding msg text rest) ∧
      (∀ msg error rest, c.phase ≠ .failing msg error rest) ∧ t = s ∧ ∀ m, c'.Took m ↔
      c.Took m) := by
  obtain ⟨limit, phase, processed, failed⟩ := c
  cases phase with
  | choosing rest =>
    cases rest with
    | nil =>
      cases h
      exact Or.inr
        (Or.inr (Or.inr ⟨by simp, by simp, by simp, rfl, by simp [Cycle.Took, Phase.hand]⟩))
    | cons msg rest =>
      cases h
      refine Or.inl ⟨msg, rest, rfl, rfl, fun m => ?_⟩
      simp [Cycle.Took, Phase.hand]
      tauto
  | responding msg text rest =>
    refine Or.inr (Or.inl ⟨msg, text, rest, rfl, ?_⟩)
    simp only [Cycle.step] at h
    split at h
    · next heq =>
      cases h
      rw [heq]
      refine ⟨rfl, fun m => ?_⟩
      simp [Cycle.Took, Phase.hand]
      tauto
    · next heq =>
      cases h
      rw [heq]
      exact ⟨rfl, fun m => Iff.rfl⟩
  | failing msg error rest =>
    refine Or.inr (Or.inr (Or.inl ⟨msg, error, rest, rfl, ?_⟩))
    simp only [Cycle.step] at h
    split at h
    · next heq =>
      cases h
      rw [heq]
      refine ⟨rfl, fun m => ?_⟩
      simp [Cycle.Took, Phase.hand]
      tauto
    · next heq =>
      cases h
      rw [heq]
      exact ⟨rfl, fun m => Iff.rfl⟩
  -- the other phases leave the tables alone
  | reading =>
    refine Or.inr (Or.inr (Or.inr ⟨by simp, by simp, by simp, ?_⟩))
    simp only [Cycle.step] at h
    split at h
    · cases h
      exact ⟨rfl, fun m => Iff.rfl⟩
    · split at h <;> cases h <;> exact ⟨rfl, fun m => Iff.rfl⟩
  | turning msg rest =>
    refine Or.inr (Or.inr (Or.inr ⟨by simp, by simp, by simp, ?_⟩))
    simp only [Cycle.step] at h
    split at h <;> cases h <;> exact ⟨rfl, fun m => Iff.rfl⟩
  | hooking msg reply rest =>
    refine Or.inr (Or.inr (Or.inr ⟨by simp, by simp, by simp, ?_⟩))
    simp only [Cycle.step] at h
    split at h <;> cases h <;> exact ⟨rfl, fun m => Iff.rfl⟩
  | counting =>
    refine Or.inr (Or.inr (Or.inr ⟨by simp, by simp, by simp, ?_⟩))
    simp only [Cycle.step] at h
    split at h <;> cases h <;> exact ⟨rfl, fun m => Iff.rfl⟩
  | returned result => cases h
  | raised hand error => cases h
  | stopped hand => cases h

end Cycles

/-! ## Runs -/

section Runs

variable {T} {s t : System ι} {e : Event ι}

/-- What holds of the system: the tables are in order, no turn is begun twice, and the messages of
the turns are those that the cycles have taken up. -/
structure Inv (s : System ι) : Prop where
  tables : Tables s.store
  turns : s.store.turns.Nodup
  taken : ∀ msgId, msgId ∈ s.store.turns ↔ ∃ i c, s.cycles i = some c ∧ c.Took msgId

omit [DecidableEq ι] in
theorem inv_init : Inv (System.init : System ι) := by
  refine ⟨⟨Keyed.unique_nil, ?_, ?_⟩, List.nodup_nil, ?_⟩
  · intro o ho
    cases ho
  · intro r hr
    cases hr
  · intro msgId
    refine iff_of_false List.not_mem_nil ?_
    rintro ⟨i, c, hc, -⟩
    cases hc

variable {i : ι} {store : WakeStore}

/-- What one cycle has taken up, and the others. -/
theorem took_update {c : Cycle} {msgId : Str} :
    (∃ j d, (System.mk store (Function.update s.cycles i (some c))).cycles j = some d ∧
      d.Took msgId) ↔ c.Took msgId ∨ ∃ j d, j ≠ i ∧ s.cycles j = some d ∧ d.Took msgId := by
  constructor
  · rintro ⟨j, d, hd, htook⟩
    by_cases hj : j = i
    · subst hj
      simp only [Function.update_self, Option.some.injEq] at hd
      rw [hd]
      exact Or.inl htook
    · exact Or.inr ⟨j, d, hj, (Function.update_of_ne hj ..).symm.trans hd, htook⟩
  · rintro (htook | ⟨j, d, hj, hd, htook⟩)
    · exact ⟨i, c, Function.update_self .., htook⟩
    · exact ⟨j, d, (Function.update_of_ne hj ..).trans hd, htook⟩

theorem took_split {c : Cycle} (hc : s.cycles i = some c) {msgId : Str} :
    (∃ j d, s.cycles j = some d ∧ d.Took msgId) ↔ c.Took msgId ∨ ∃ j d, j ≠ i ∧
    s.cycles j = some d ∧ d.Took msgId := by
  have heq : Function.update s.cycles i (some c) = s.cycles := by
    rw [← hc, Function.update_eq_self]
  rw [← took_update (i := i) (c := c), heq]

omit [DecidableEq ι] in
/-- Where the tables change and the cycles do not. -/
theorem Inv.call (h : Inv s) (htables : Tables store) (hturns : store.turns = s.store.turns) :
    Inv { s with store := store } := by
  refine ⟨htables, ?_, fun msgId => ?_⟩
  · show store.turns.Nodup
    rw [hturns]
    exact h.turns
  · show msgId ∈ store.turns ↔ _
    rw [hturns]
    exact h.taken msgId

/-- Where one cycle goes on and has taken up nothing new. -/
theorem Inv.goOn (h : Inv s) {c c' : Cycle} (hc : s.cycles i = some c) (htables : Tables store)
    (hturns : store.turns = s.store.turns) (htook : ∀ m, c'.Took m ↔ c.Took m) :
    Inv ⟨store, Function.update s.cycles i (some c')⟩ := by
  refine ⟨htables, ?_, fun msgId => ?_⟩
  · show store.turns.Nodup
    rw [hturns]
    exact h.turns
  · rw [took_update, htook, ← took_split hc, ← h.taken]
    show msgId ∈ store.turns ↔ _
    rw [hturns]

/-- Where one cycle takes up a message that none has taken up. -/
theorem Inv.takeUp (h : Inv s) {msg : InboxRow} {c c' : Cycle} (hc : s.cycles i = some c)
    (hfresh : msg.id ∉ s.store.turns) (htook : ∀ m, c'.Took m ↔ c.Took m ∨ m = msg.id) :
    Inv ⟨{ s.store with turns := s.store.turns ++ [msg.id] },
        Function.update s.cycles i (some c')⟩ := by
  refine ⟨⟨h.tables.unique, h.tables.known, fun r hr => (h.tables.settled r hr).congr rfl⟩, ?_,
    fun msgId => ?_⟩
  · show (s.store.turns ++ [msg.id]).Nodup
    refine List.nodup_append.mpr ⟨h.turns, List.nodup_singleton _, ?_⟩
    intro m hm m' hm' heq
    rw [heq, List.mem_singleton.mp hm'] at hm
    exact hfresh hm
  · rw [took_update, htook, or_right_comm, ← took_split hc, ← h.taken]
    show msgId ∈ s.store.turns ++ [msg.id] ↔ _
    rw [List.mem_append, List.mem_singleton]

theorem step_cycle {env : StepEnv} (hstep : System.step T s (.step i env) = some t) :
    ∃ c c' store, s.cycles i = some c ∧ c.step T env s.store = some (c', store) ∧
      t = ⟨store, Function.update s.cycles i (some c')⟩ := by
  simp only [System.step] at hstep
  obtain ⟨c, hc, hrest⟩ := Option.bind_eq_some_iff.mp hstep
  obtain ⟨⟨c', store⟩, hcycle, rfl⟩ := Option.map_eq_some_iff.mp hrest
  exact ⟨c, c', store, hc, hcycle, rfl⟩

/-- **What a step keeps** that nothing disturbs. -/
theorem Inv.step (h : Inv s) (hQ : Undisturbed s e) (hstep : System.step T s e = some t) :
    Inv t ∧ Kept s.store t.store := by
  cases e with
  | post env text sender =>
    cases hstep
    obtain ⟨htables, hkept, hturns⟩ := h.tables.post env text sender
    exact ⟨h.call htables hturns, hkept⟩
  | notify env text source =>
    cases hstep
    obtain ⟨htables, hkept, hturns⟩ := h.tables.notify env text source
    exact ⟨h.call htables hturns, hkept⟩
  | respond env msgId text source =>
    cases hstep
    obtain ⟨htables, hkept⟩ := h.tables.respond text source hQ
    exact ⟨h.call htables turns_respond, hkept⟩
  | markFailed env msgId error =>
    cases hstep
    obtain ⟨htables, hkept⟩ := h.tables.markFailed hQ
    exact ⟨h.call htables turns_markFailed, hkept⟩
  | start i limit =>
    simp only [System.step] at hstep
    split at hstep
    · cases hstep
    · next hnone =>
      cases hstep
      refine ⟨⟨h.tables, h.turns, fun msgId => ?_⟩, Kept.refl _⟩
      rw [took_update]
      show msgId ∈ s.store.turns ↔ _
      rw [h.taken]
      constructor
      · rintro ⟨j, d, hd, htook⟩
        refine Or.inr ⟨j, d, ?_, hd, htook⟩
        rintro rfl
        rw [hnone] at hd
        cases hd
      · rintro (htook | ⟨j, d, -, hd, htook⟩)
        · simp [Cycle.Took, Phase.hand] at htook
        · exact ⟨j, d, hd, htook⟩
  | step i env =>
    obtain ⟨c, c', store, hc, hcycle, rfl⟩ := step_cycle hstep
    have hcond := hQ c hc
    rcases Cycle.step_cases hcycle with ⟨msg, rest, hphase, rfl, htook⟩
      | ⟨msg, text, rest, hphase, rfl, htook⟩ |
      ⟨msg, error, rest, hphase, rfl, htook⟩ | ⟨-, -, -, rfl, htook⟩
    -- the message that is taken up is in nobody's hand
    · simp only [hphase] at hcond
      refine ⟨h.takeUp hc ?_ htook, Kept.of_subset (fun _ hr => hr) fun _ _ => rfl⟩
      rw [h.taken]
      rintro ⟨j, d, hd, hmsg⟩
      exact hcond j d hd hmsg
    · simp only [hphase] at hcond
      obtain ⟨htables, hkept⟩ := h.tables.respond text (lit "wake") hcond
      exact ⟨h.goOn hc htables turns_respond htook, hkept⟩
    · simp only [hphase] at hcond
      obtain ⟨htables, hkept⟩ := h.tables.markFailed hcond
      exact ⟨h.goOn hc htables turns_markFailed htook, hkept⟩
    · exact ⟨h.goOn hc h.tables rfl htook, Kept.refl _⟩
  | stop i =>
    simp only [System.step] at hstep
    obtain ⟨c, hc, rfl⟩ := Option.map_eq_some_iff.mp hstep
    exact ⟨h.goOn hc h.tables rfl fun m => Iff.rfl, Kept.refl _⟩

/-- What a step disturbs where the condition fails. -/
theorem Inv.undisturbed (h : Inv s) (hstep : System.step T s e = some t) (honce : Once t.store)
    (hkept : Kept s.store t.store) : Undisturbed s e := by
  cases e with
  | post env text sender => trivial
  | notify env text source => trivial
  | start i limit => trivial
  | stop i => trivial
  | respond env msgId text source =>
    cases hstep
    exact mayRespond_of_kept hkept
  | markFailed env msgId error =>
    cases hstep
    exact mayFail_of_kept h.tables hkept
  | step i env =>
    obtain ⟨c, c', store, hc, hcycle, rfl⟩ := step_cycle hstep
    intro d hd
    obtain rfl := Option.some.inj (hc.symm.trans hd)
    rcases Cycle.step_cases hcycle with ⟨msg, rest, hphase, rfl, -⟩
      | ⟨msg, text, rest, hphase, rfl, -⟩ |
      ⟨msg, error, rest, hphase, rfl, -⟩ | ⟨hchoosing, hresponding, hfailing, -⟩
    · simp only [hphase]
      intro j d hd hmsg
      have hturn := honce.turn msg.id
      have hpos : 0 < s.store.turns.count msg.id :=
        List.count_pos_iff.mpr ((h.taken msg.id).mpr ⟨j, d, hd, hmsg⟩)
      rw [List.count_append, List.count_singleton_self] at hturn
      omega
    · simp only [hphase]
      exact mayRespond_of_kept hkept
    · simp only [hphase]
      exact mayFail_of_kept h.tables hkept
    · split
      · next msg rest hphase => exact absurd hphase (hchoosing msg rest)
      · next msg text rest hphase => exact absurd hphase (hresponding msg text rest)
      · next msg error rest hphase => exact absurd hphase (hfailing msg error rest)
      · trivial

theorem undisturbed_of_none (hstep : System.step T s e = none) : Undisturbed s e := by
  cases e with
  | post env text sender => trivial
  | notify env text source => trivial
  | start i limit => trivial
  | stop i => trivial
  | respond env msgId text source => cases hstep
  | markFailed env msgId error => cases hstep
  | step i env =>
    intro c hc
    simp only [System.step, hc, Option.bind_some, Option.map_eq_none_iff] at hstep
    -- a cycle that is at one of the three calls can go on
    split
    · next hphase => simp [Cycle.step, hphase] at hstep
    · next hphase =>
      simp only [Cycle.step, hphase] at hstep
      split at hstep <;> cases hstep
    · next hphase =>
      simp only [Cycle.step, hphase] at hstep
      split at hstep <;> cases hstep
    · trivial

end Runs

/-- **When every message is answered once.** -/
theorem answered_once_iff (es : List (Event ι)) :
    AnsweredOnce T es ↔ Along (System.step T) Undisturbed System.init es := by
  refine along_iff_related (I := Inv) (R := fun s t => Kept s.store t.store) (P :=
    fun s => Once s.store)
    (fun s => Kept.refl s.store) (fun _ _ _ => Kept.trans) (fun _ h => h.tables.once h.turns) ?_
    (fun _ _ => undisturbed_of_none) ?_ inv_init
  · intro s e t h hQ hstep
    exact (h.step hQ hstep).1
  · intro s e t h hstep
    constructor
    · intro hQ
      obtain ⟨hinv, hkept⟩ := h.step hQ hstep
      exact ⟨hinv.tables.once hinv.turns, hkept⟩
    · rintro ⟨honce, hkept⟩
      exact h.undisturbed hstep honce hkept

/-! ## Two cycles -/

/-- The errors of a model that never fails. -/
def noTexts : ErrorTexts := ⟨fun _ => [], fun _ => []⟩

def envOf (newId : Str) : StepEnv :=
  ⟨⟨newId, lit "10:01", lit "10:01", none⟩, .ok (lit "yes"), .ok []⟩

/-- A message, and two cycles that have both read the inbox before one of them answers. -/
def overlapping : List (Event Bool) :=
  [.post ⟨lit "m", lit "10:00", lit "10:00", none⟩ (lit "are you there?") (lit "operator"),
    .start true 10, .start false 10, .step true (envOf []), .step false (envOf [])] ++
  [true, false].flatMap fun i =>
    (List.replicate 4 (Event.step i (envOf (lit (if i then "a" else "b")))))

/-- Both cycles begin a turn, and both replies are in the outbox. -/
theorem not_answered_once : ¬ AnsweredOnce noTexts overlapping ∧
    ((run (System.step noTexts) System.init overlapping).map fun s =>
      (s.store.turns, (s.store.replies (lit "wake-m")).map OutboxRow.id,
        s.store.inbox.map InboxRow.responseId)) =
      some ([lit "wake-m", lit "wake-m"], [lit "wake-a", lit "wake-b"], [some (lit "wake-b")]) := by
  refine ⟨fun h => ?_, by decide +kernel⟩
  obtain ⟨s, hs, hturns⟩ : ∃ s, run (System.step noTexts) System.init overlapping = some s ∧
      (s.store.turns.count (lit "wake-m")) = 2 := by
    obtain ⟨n, hn, hcount⟩ : ∃ n, (run (System.step noTexts) System.init overlapping).map
        (fun s => s.store.turns.count (lit "wake-m")) = some n ∧ n = 2 :=
        ⟨2, by decide +kernel, rfl⟩
    obtain ⟨s, hs, rfl⟩ := Option.map_eq_some_iff.mp hn
    exact ⟨s, hs, hcount⟩
  have honce := ((h overlapping [] s s (by rw [List.append_nil]) hs rfl).1).turn (lit "wake-m")
  omega

end Wake
