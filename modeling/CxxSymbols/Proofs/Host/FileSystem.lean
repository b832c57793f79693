import CxxSymbols.Host
import Mathlib.Logic.Function.Basic
/-! The files of a host. What a step does to them is told by what is at each place before and
behind it; a path may go by many spellings, so a place is not a path. -/
namespace CxxSymbols.Host

/- What a program may rely on. A new file has a place that nothing has, a write that fails spoils at
most its own file, and renaming is done as a whole or not at all. -/
structure FileSystem (σ Place : Type) [DecidableEq Place] [Host (StateM σ)] where
  place : String → Place
  content : σ → Place → Option ByteArray
  complained {s t : σ} {line : String} :
    (complain line : StateM σ Unit).run s = ((), t) → content t = content s
  looked {s t : σ} {path : String} {result : Except FileError ByteArray} :
    (read path : StateM σ _).run s = (result, t) → content t = content s
  readThere {s t : σ} {path : String} {bytes : ByteArray} :
    (read path : StateM σ _).run s = (.ok bytes, t) → content s (place path) = some bytes
  created {s t : σ} {directory file : String} :
    (createIn directory : StateM σ _).run s = (.ok file, t) →
      content s (place file) = none ∧
        content t = Function.update (content s) (place file) (some ByteArray.empty)
  notCreated {s t : σ} {directory : String} {e : FileError} :
    (createIn directory : StateM σ _).run s = (.error e, t) → content t = content s
  written {s t : σ} {path : String} {bytes : ByteArray} :
    (write path bytes : StateM σ _).run s = (.ok (), t) →
      content t = Function.update (content s) (place path) (some bytes)
  notWritten {s t : σ} {path : String} {bytes : ByteArray} {e : FileError} :
    (write path bytes : StateM σ _).run s = (.error e, t) →
      ∀ p ≠ place path, content t p = content s p
  renamed {s t : σ} {source path : String} :
    (rename source path : StateM σ _).run s = (.ok (), t) →
      content t = Function.update (Function.update (content s) (place source) none) (place path)
        (content s (place source))
  notRenamed {s t : σ} {source path : String} {e : FileError} :
    (rename source path : StateM σ _).run s = (.error e, t) → content t = content s
  removed {s t : σ} {path : String} :
    (remove path : StateM σ Unit).run s = ((), t) →
      content t = Function.update (content s) (place path) none

/-! ### Runs of steps that may fail -/

section Runs
variable {ε σ α β : Type} {s t : σ}

def Runs (x : ExceptT ε (StateM σ) α) (s : σ) (result : Except ε α) (t : σ) : Prop :=
  (ExceptT.run x).run s = (result, t)

theorem runsSome (x : ExceptT ε (StateM σ) α) (s : σ) : ∃ result t, Runs x s result t :=
  ⟨_, _, rfl⟩

theorem Runs.ofPure {a : α} {result : Except ε α}
    (runs : Runs (pure a : ExceptT ε (StateM σ) α) s result t) : result = .ok a ∧ t = s := by
  cases runs
  exact ⟨rfl, rfl⟩

theorem Runs.ofThrow {e : ε} {result : Except ε α}
    (runs : Runs (throw e : ExceptT ε (StateM σ) α) s result t) : result = .error e ∧ t = s := by
  cases runs
  exact ⟨rfl, rfl⟩

theorem Runs.ofBind {x : ExceptT ε (StateM σ) α} {f : α → ExceptT ε (StateM σ) β}
    {result : Except ε β} (runs : Runs (x >>= f) s result t) :
    (∃ e, result = .error e ∧ Runs x s (.error e) t) ∨
      ∃ a between, Runs x s (.ok a) between ∧ Runs (f a) between result t := by
  obtain ⟨answer, between, first⟩ := runsSome x s
  have whole : (ExceptT.run (x >>= f)).run s = (ExceptT.bindCont f answer).run between := by
    rw [← congrArg (fun p : Except ε α × σ => (ExceptT.bindCont f p.1).run p.2) first]
    rfl
  cases answer with
  | error e =>
    cases runs.symm.trans whole
    exact .inl ⟨e, rfl, first⟩
  | ok a => exact .inr ⟨a, between, first, whole.symm.trans runs⟩

theorem Runs.ofHost {x : StateM σ α} {f : α → ExceptT ε (StateM σ) β} {result : Except ε β}
    (runs : Runs (ExceptT.lift x >>= f) s result t) :
    ∃ a between, x.run s = (a, between) ∧ Runs (f a) between result t :=
  ⟨_, _, rfl, runs⟩

end Runs

end CxxSymbols.Host
