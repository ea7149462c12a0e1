import Msb.Vesta.Shell

/-!
# The policy of the shell

`authorize_shell` of `vesta/policy.py` with the decision that it returns, beside
`ShellExecutor.validate_command`: the same bounds are written down twice. Both refuse an argument
with a null character, as far as their authors meant it; but the text that the policy looks for is
the four characters of an escape.

* `requireApproval_iff` — which commands are put before the owner
* `validateCommand_iff` — which commands the executor accepts
* `approved_iff_accepted` — on which commands the two agree
-/

namespace Vesta

open Py Ledger

/-! ## Decisions -/

/-- What the policy reads of a binding. -/
structure ABind where
  capabilities : List Str
  policyVersion : Str

structure PolicyDecision where
  decision : Str
  riskClass : Str
  capabilities : List Str
  reasons : List Str
  policyVersion : Str

/-- `set(bind.capabilities) == SHELL_CAPABILITIES` -/
def ABind.isShell (bind : ABind) : Bool :=
  bind.capabilities.contains (lit "shell.exec") && bind.capabilities.all fun c =>
    c = lit "shell.exec"

def ABind.decide (bind : ABind) (decision riskClass reason : Str) : PolicyDecision :=
  ⟨decision, riskClass, bind.capabilities, [reason], bind.policyVersion⟩

def ABind.deny (bind : ABind) (reason : Str) : PolicyDecision :=
  bind.decide (lit "DENY") (lit "high") reason

/-- An argument that the policy refuses. It looks for the text of an escape, not for the character.
-/
def longOrEscaped (arg : Str) : Bool := decide (lit "\\x00" <:+: arg ∨ 1024 < arg.length)

/-- `authorize_shell` -/
def shellDecision (executable : Str) (args : List Str) (expectedStdout : Option Str) (bind : ABind)
    (expired : Bool) : PolicyDecision :=
  if bind.isShell = false then
    bind.decide (lit "DENY") (lit "critical")
      (lit "SHELL_EXEC requires the exact shell.exec capability")
  else if executable ∉ allowedShellCommands then
    bind.decide (lit "DENY") (lit "critical") (lit "executable is not allowlisted: " ++ executable)
  else if args.any longOrEscaped = true ∨ 8192 < (args.map List.length).sum then
    bind.deny (lit "shell arguments exceed the bounded contract")
  else if 32 < args.length then bind.deny (lit "too many shell arguments")
  else if executable = lit "pwd" ∧ args ≠ [] then bind.deny (lit "pwd accepts no arguments")
  else if executable = lit "echo" ∧ (args.any fun arg => (lit "-").isPrefixOf arg) = true then
    bind.deny (lit "echo flags are not permitted")
  else if expectedStdout.any fun s => 65536 < s.length then bind.deny
    (lit "expected output exceeds the bounded contract")
  else if expired then bind.deny (lit "A-BIND deadline has expired")
  else bind.decide (lit "REQUIRE_APPROVAL") (lit "high")
    (lit "shell execution requires exact owner approval")

def PolicyDecision.requiresApproval (d : PolicyDecision) : Bool :=
  d.decision = lit "REQUIRE_APPROVAL"

@[simp] theorem requiresApproval_deny (bind : ABind) (reason : Str) :
    (bind.deny reason).requiresApproval = false := rfl

@[simp] theorem requiresApproval_critical (bind : ABind) (reason : Str) :
    (bind.decide (lit "DENY") (lit "critical") reason).requiresApproval = false := rfl

@[simp] theorem requiresApproval_approve (bind : ABind) (reason : Str) :
    (bind.decide (lit "REQUIRE_APPROVAL") (lit "high") reason).requiresApproval = true := rfl

/-- `ShellExecutor`, with the default commands found at these paths. -/
def ShellExecutor.default (echoPath pwdPath : Str) : ShellExecutor :=
  ⟨[(lit "echo", echoPath), (lit "pwd", pwdPath)]⟩

/-! ## The bounds -/

/-- The bounds that both state. -/
structure Bounded (executable : Str) (args : List Str) : Prop where
  allowed : executable ∈ allowedShellCommands
  count : args.length ≤ 32
  each : ∀ arg ∈ args, arg.length ≤ 1024
  total : (args.map List.length).sum ≤ 8192
  pwd : executable = lit "pwd" → args = []
  echo : executable = lit "echo" → ∀ arg ∈ args, ¬lit "-" <+: arg

section

variable {executable : Str} {args : List Str}

theorem ite_requiresApproval {c : Prop} [Decidable c] {d e : PolicyDecision}
    (hd : d.requiresApproval = false) :
    (if c then d else e).requiresApproval = true ↔ ¬c ∧ e.requiresApproval = true := by
  by_cases hc : c
  · simp [hc, hd]
  · simp [hc]

theorem any_longOrEscaped :
    args.any longOrEscaped = true ↔ ∃ arg ∈ args, lit "\\x00" <:+: arg ∨ 1024 < arg.length := by
  simp [longOrEscaped]

/-- **What is put before the owner**: a bounded command without the text of the escape. -/
theorem requireApproval_iff (expectedStdout : Option Str) (bind : ABind) (expired : Bool) :
    (shellDecision executable args expectedStdout bind expired).requiresApproval = true ↔
      Bounded executable args ∧ (∀ arg ∈ args, ¬lit "\\x00" <:+: arg) ∧ bind.isShell = true ∧
        (∀ s, expectedStdout = some s → s.length ≤ 65536) ∧ expired = false := by
  have hexpected : (expectedStdout.any fun s => decide (65536 < s.length)) = true ↔
      ∃ s, expectedStdout = some s ∧ 65536 < s.length := by
    cases expectedStdout <;> simp
  unfold shellDecision
  simp only [ite_requiresApproval (requiresApproval_deny _ _),
    ite_requiresApproval (requiresApproval_critical _ _),
    requiresApproval_approve, any_longOrEscaped, hexpected]
  constructor
  · rintro ⟨hshell, hallowed, hargs, hcount, hpwd, hecho, hstdout, hexpired, -⟩
    have hshort : ∀ arg ∈ args, ¬lit "\\x00" <:+: arg ∧ arg.length ≤ 1024 := fun arg harg =>
      ⟨fun h => hargs (.inl ⟨arg, harg, .inl h⟩), Nat.not_lt.mp fun h =>
        hargs (.inl ⟨arg, harg, .inr h⟩)⟩
    refine ⟨⟨not_not.mp hallowed, Nat.not_lt.mp hcount, fun arg harg => (hshort arg harg).2,
      Nat.not_lt.mp fun h => hargs (.inr h), fun h => ?_, fun h => ?_⟩, fun arg harg =>
      (hshort arg harg).1, ?_,
      fun s hs => Nat.not_lt.mp fun h => hstdout ⟨s, hs, h⟩, ?_⟩
    · by_contra hne
      exact hpwd ⟨h, hne⟩
    · simpa using fun hany => hecho ⟨h, hany⟩
    · simpa using hshell
    · simpa using hexpired
  · rintro ⟨⟨hallowed, hcount, heach, htotal, hpwd, hecho⟩, hescape, hshell, hstdout, hexpired⟩
    refine ⟨by simp [hshell], not_not.mpr hallowed, ?_, Nat.not_lt.mpr hcount, fun h =>
      h.2 (hpwd h.1), fun h => ?_,
      fun ⟨s, hs, h⟩ => Nat.not_lt.mpr (hstdout s hs) h, by simp [hexpired], trivial⟩
    · rintro (⟨arg, harg, h | h⟩ | h)
      · exact hescape arg harg h
      · exact Nat.not_lt.mpr (heach arg harg) h
      · exact Nat.not_lt.mpr htotal h
    · obtain ⟨arg, harg, hflag⟩ := List.any_eq_true.mp h.2
      exact hecho h.1 arg harg (List.isPrefixOf_iff_prefix.mp hflag)

/-- **What the executor accepts**: a bounded command without a null character. -/
theorem validateCommand_iff (echoPath pwdPath : Str) :
    (ShellExecutor.default echoPath pwdPath).validateCommand executable args = .ok () ↔
      Bounded executable args ∧ ∀ arg ∈ args, 0 ∉ arg := by
  have hpath : ((ShellExecutor.default echoPath pwdPath).path executable).isNone = true ↔
      executable ∉ allowedShellCommands := by
    by_cases hecho : executable = lit "echo"
    · simp [ShellExecutor.path, ShellExecutor.default, allowedShellCommands, hecho]
    · by_cases hpwd : executable = lit "pwd"
      · have hne : lit "echo" ≠ lit "pwd" := by decide
        simp [ShellExecutor.path, ShellExecutor.default, allowedShellCommands, hpwd, hne]
      · simp [ShellExecutor.path, ShellExecutor.default, allowedShellCommands, hecho, hpwd, eq_comm]
  have hargs : (args.any fun arg => arg.contains 0 || decide (1024 < arg.length)) = true ↔
      ∃ arg ∈ args, 0 ∈ arg ∨ 1024 < arg.length := by
    simp
  unfold ShellExecutor.validateCommand
  simp only [bind_eq_ok, raiseIf_eq_ok, hpath, hargs, exists_const]
  constructor
  · rintro ⟨hallowed, hcount, hshort, htotal, hpwd, hecho⟩
    refine ⟨⟨not_not.mp hallowed, Nat.not_lt.mp hcount, fun arg harg => Nat.not_lt.mp fun h =>
      hshort ⟨arg, harg, .inr h⟩,
      Nat.not_lt.mp htotal, fun h => ?_, fun h => ?_⟩, fun arg harg h => hshort ⟨arg, harg, .inl h⟩⟩
    · by_contra hne
      exact hpwd ⟨h, hne⟩
    · simpa using fun hany => hecho ⟨h, hany⟩
  · rintro ⟨⟨hallowed, hcount, heach, htotal, hpwd, hecho⟩, hnull⟩
    refine ⟨not_not.mpr hallowed, Nat.not_lt.mpr hcount, ?_, Nat.not_lt.mpr htotal, fun h =>
      h.2 (hpwd h.1), fun h => ?_⟩
    · rintro ⟨arg, harg, h | h⟩
      · exact hnull arg harg h
      · exact Nat.not_lt.mpr (heach arg harg) h
    · obtain ⟨arg, harg, hflag⟩ := List.any_eq_true.mp h.2
      exact hecho h.1 arg harg (List.isPrefixOf_iff_prefix.mp hflag)

/-- **The policy and the executor agree** on a command exactly where, if it is bounded at all, it
has an argument with a null character just when it has one with the text of the escape. -/
theorem approved_iff_accepted (echoPath pwdPath : Str) (executable : Str) (args : List Str)
    {expectedStdout : Option Str}
    {bind : ABind} (hshell : bind.isShell = true) (hstdout : ∀ s, expectedStdout = some s →
      s.length ≤ 65536) :
    ((shellDecision executable args expectedStdout bind false).requiresApproval = true ↔
        (ShellExecutor.default echoPath pwdPath).validateCommand executable args = .ok ()) ↔
      (Bounded executable args →
          ((∃ arg ∈ args, 0 ∈ arg) ↔ ∃ arg ∈ args, lit "\\x00" <:+: arg)) := by
  rw [requireApproval_iff, validateCommand_iff]
  by_cases hbounded : Bounded executable args
  · have hnull : (∀ arg ∈ args, 0 ∉ arg) ↔ ¬∃ arg ∈ args, 0 ∈ arg := by simp
    have hescape : (∀ arg ∈ args, ¬lit "\\x00" <:+: arg) ↔ ¬∃ arg ∈ args, lit "\\x00" <:+: arg := by
      simp
    have hstdout' : (∀ s, expectedStdout = some s → s.length ≤ 65536) ↔ True :=
      iff_true_intro hstdout
    simp only [hbounded, hshell, hstdout', hnull, hescape, true_and, and_true, forall_const]
    rw [not_iff_not]
    exact Iff.comm
  · simp [hbounded]

end

def shellBind : ABind := ⟨[lit "shell.exec"], lit "vesta-policy-1"⟩

/-- `echo` of a plain word. -/
theorem approved_iff_accepted_word :
    ((shellDecision (lit "echo") [lit "hi"] none shellBind false).requiresApproval = true ↔
        (ShellExecutor.default (lit "/bin/echo") (lit "/bin/pwd")).validateCommand (lit "echo")
        [lit "hi"] = .ok ()) ↔
      (Bounded (lit "echo") [lit "hi"] →
          ((∃ arg ∈ [lit "hi"], 0 ∈ arg) ↔ ∃ arg ∈ [lit "hi"], lit "\\x00" <:+: arg)) :=
  approved_iff_accepted _ _ _ _ rfl fun _ h => by cases h

/-- The null character is put before the owner, and the executor refuses it; the text of its escape,
which the executor would print, is denied. -/
theorem approved_not_accepted :
    ¬∀ (echoPath pwdPath executable : Str) (args : List Str) (expectedStdout : Option Str)
    (bind : ABind), bind.isShell = true → (∀ s, expectedStdout = some s → s.length ≤ 65536) →
        ((shellDecision executable args expectedStdout bind false).requiresApproval = true ↔
          (ShellExecutor.default echoPath pwdPath).validateCommand executable args = .ok ()) := by
  intro h
  have hnull := h (lit "/bin/echo") (lit "/bin/pwd") (lit "echo") [[0]] none shellBind rfl
    fun _ h => by cases h
  have happroved : (shellDecision (lit "echo") [[0]] none shellBind false).requiresApproval =
    true := by decide
  exact absurd (hnull.mp happroved) (by decide)

end Vesta
