import Msb.Vesta.Write

/-!
# The file writer

`FileWriter` of `node/filesystem.py`, over one target: the file is its content, or `none`. A write
goes to a temporary file that replaces the target, and then reads the target back. Whatever the
operating system or the path check may raise is given for each step.

* `FileWriter.rollback_restores`, `FileWriter.rollback_raises` — what can fail in a rollback
-/

namespace Vesta

open Py Ledger

/-- The steps of the writer at which something outside of it can raise. -/
inductive FileStep where
  /-- `_safe_target` of `rollback` -/
  | target
  /-- `_safe_target` of `write` -/
  | resolve
  | readBefore
  /-- The temporary file, up to `os.replace`. -/
  | replace
  /-- `observed = path.read_bytes()` -/
  | observe
  | readRestored
  | unlink
  deriving DecidableEq

structure FileWriter where
  maxBytes : Nat

namespace FileWriter

variable (P : Platform) (self : FileWriter) (fault : FileStep → Option PyError)
  (file : Option Bytes)

/-- `write exceeds limit` -/
def sizeError (content : Bytes) : Option PyError :=
  if self.maxBytes < content.length then
    some (capabilityViolation (lit "write exceeds limit (" ++ (intLit self.maxBytes).text ++
      lit " bytes)"))
  else none

/-- `precondition hash does not match target` -/
def preconditionError (expectedSha256 : Option Str) : Option PyError :=
  if expectedSha256 ≠ none ∧ file.map P.hexdigest ≠ expectedSha256 then
    some (capabilityViolation (lit "precondition hash does not match target"))
  else none

/-- What `write` raises before it has replaced the target. -/
def refusal (content : Bytes) (expectedSha256 : Option Str) : Option PyError :=
  (self.sizeError content).or ((fault .resolve).or ((fault .readBefore).or
    ((preconditionError P file expectedSha256).or (fault .replace))))

/-- The receipt of a write over `file`. -/
def receipt (path : Str) (content : Bytes) : FileWriteReceipt :=
  ⟨path, file.isSome, file.map P.hexdigest, P.hexdigest content, content.length, file⟩

/-- `FileWriter.write`. What it reads back is what it has written: no other process writes to the
target. -/
def write (path : Str) (content : Bytes) (expectedSha256 : Option Str) :
    Except PyError FileWriteReceipt × Option Bytes :=
  match refusal P self fault file content expectedSha256 with
  | some e => (.error e, file)
  | none =>
    match fault .observe with
    | some e => (.error e, some content)
    | none => (.ok (receipt P file path content), some content)

/-- `FileWriter.rollback` -/
def rollback (done : FileWriteReceipt) : Except PyError Rollback × Option Bytes :=
  match fault .target with
  | some e => (.error e, file)
  | none =>
    if done.existed then
      match done.before with
      | none => (.error (capabilityViolation (lit "rollback snapshot is missing")), file)
      | some before =>
        match write P self fault file done.path before none with
        | (.error e, file) => (.error e, file)
        | (.ok _, file) =>
          match fault .readRestored with
          | some e => (.error e, file)
          | none =>
            (.ok ⟨file.map P.hexdigest = done.beforeSha256, done.path, done.beforeSha256⟩, file)
    else
      match fault .unlink with
      | some e => (.error e, file)
      | none => (.ok ⟨true, done.path, done.beforeSha256⟩, none)

/-- What can fail in the rollback of a write over `before`. -/
def rollbackFaults : Option Bytes → List (Option PyError)
  | none => [fault .target, fault .unlink]
  | some before =>
    [fault .target, self.sizeError before, fault .resolve, fault .readBefore, fault .replace,
      fault .observe, fault .readRestored]

variable {P self fault}

/-- A rollback in which nothing fails restores the file. -/
theorem rollback_restores {before : Option Bytes}
    (h : ∀ o ∈ rollbackFaults self fault before, o = none)
    (file : Option Bytes) (path : Str) (content : Bytes) :
    ∃ undone, rollback P self fault file (receipt P before path content) =
        (.ok undone, before) := by
  cases before with
  | none =>
    simp only [rollbackFaults, List.mem_cons, List.not_mem_nil, or_false, forall_eq_or_imp,
      forall_eq] at h
    simp only [rollback, receipt, h.1, h.2]
    exact ⟨_, rfl⟩
  | some before =>
    simp only [rollbackFaults, List.mem_cons, List.not_mem_nil, or_false, forall_eq_or_imp,
      forall_eq] at h
    obtain ⟨htarget, hsize, hresolve, hread, hreplace, hobserve, hrestored⟩ := h
    simp only [rollback, receipt, write, refusal, preconditionError, htarget, hsize, hresolve,
      hread, hreplace, hobserve, hrestored]
    exact ⟨_, rfl⟩

/-- A rollback in which something fails raises. -/
theorem rollback_raises {before : Option Bytes}
    (h : ¬ ∀ o ∈ rollbackFaults self fault before, o = none)
    (file : Option Bytes) (path : Str) (content : Bytes) :
    ∃ e after, rollback P self fault file (receipt P before path content) = (.error e, after) := by
  cases before with
  | none =>
    simp only [rollbackFaults, List.mem_cons, List.not_mem_nil, or_false, forall_eq_or_imp,
      forall_eq] at h
    unfold rollback
    cases htarget : fault .target with
    | some e => exact ⟨e, file, rfl⟩
    | none =>
      cases hunlink : fault .unlink with
      | some e => exact ⟨e, file, by simp [receipt]⟩
      | none => exact absurd ⟨htarget, hunlink⟩ h
  | some before =>
    simp only [rollbackFaults, List.mem_cons, List.not_mem_nil, or_false, forall_eq_or_imp,
      forall_eq] at h
    unfold rollback
    cases htarget : fault .target with
    | some e => exact ⟨e, file, rfl⟩
    | none =>
      simp only [receipt, Option.isSome_some, if_true]
      cases hwrite : write P self fault file path before none with
      | mk out after =>
        cases out with
        | error e => exact ⟨e, after, rfl⟩
        | ok done =>
          cases hrestored : fault .readRestored with
          | some e => exact ⟨e, after, rfl⟩
          | none =>
            refine absurd ⟨htarget, ?_⟩ h
            unfold write at hwrite
            split at hwrite
            · cases hwrite
            next hrefusal =>
            split at hwrite
            · cases hwrite
            next hobserve =>
            simp only [refusal, Option.or_eq_none_iff] at hrefusal
            obtain ⟨hsize, hresolve, hread, -, hreplace⟩ := hrefusal
            exact ⟨hsize, hresolve, hread, hreplace, hobserve, hrestored⟩

end FileWriter

end Vesta
