import Mathlib.Data.Nat.Init

/-!
# Waiting for signals

Waiters watch a store for something they are interested in. A waiter takes its
place on a signal channel, then checks the store, and blocks if it finds
nothing; a signal it has not received yet makes it check again.

`Watch.Alert` is what keeps a waiter from sleeping through a change: while it
is blocked and owed no signal, there is nothing for it in the store. Every
change that is announced, or that brings nothing up for anybody, keeps it.
-/

namespace AgentBus.Lib

variable {σ ω : Type*}

inductive Phase where
  /-- About to look at the store. -/
  | checking
  /-- Waiting for a signal. -/
  | blocked
  deriving DecidableEq

structure Waiter (ω : Type*) where
  interest : ω
  /-- How many of all signals it has received or was not there to receive. -/
  received : Nat
  phase : Phase

/-- What a store has to do with waiters: the signals it sent, and for whom it holds nothing. -/
structure Watch (σ ω : Type*) where
  signals : σ → Nat
  idle : σ → ω → Prop

namespace Watch

variable (W : Watch σ ω)

/-- A blocked waiter that is owed no signal misses nothing. -/
def Alert (s : σ) (w : Waiter ω) : Prop :=
  w.received ≤ W.signals s ∧ (w.phase = .blocked → w.received = W.signals s → W.idle s w.interest)

/-- A change of the store that is announced or brings nothing up. -/
def Announced (s s' : σ) : Prop :=
  W.signals s < W.signals s' ∨ W.signals s' = W.signals s ∧ ∀ i, W.idle s i → W.idle s' i

variable {W} {s s' : σ} {w : Waiter ω}

theorem Announced.of_signal (h : W.signals s' = W.signals s + 1) : W.Announced s s' :=
  .inl (by omega)

theorem Announced.of_quiet (h : W.signals s' = W.signals s)
    (hidle : ∀ i, W.idle s i → W.idle s' i) :
    W.Announced s s' := .inr ⟨h, hidle⟩

theorem alert_subscribe (i : ω) : W.Alert s ⟨i, W.signals s, .checking⟩ :=
  ⟨Nat.le_refl _, nofun⟩

theorem Alert.recv (h : W.Alert s w) {k : Nat} (hk : k ≤ W.signals s - w.received) :
    W.Alert s { w with received := w.received + k, phase := .checking } := by
  have := h.1
  exact ⟨by show w.received + k ≤ W.signals s; omega, nofun⟩

theorem Alert.block (h : W.Alert s w) (hidle : W.idle s w.interest) :
    W.Alert s { w with phase := .blocked } :=
  ⟨h.1, fun _ _ => hidle⟩

theorem Alert.of_announced (h : W.Alert s w) (hchange : W.Announced s s') : W.Alert s' w := by
  obtain ⟨hle, hidle⟩ := h
  rcases hchange with hlt | ⟨heq, hquiet⟩
  · -- the waiter is owed the new signal
    exact ⟨by omega, fun _ h => by omega⟩
  · rw [Alert, heq]
    exact ⟨hle, fun hb hr => hquiet _ (hidle hb hr)⟩

end Watch

end AgentBus.Lib
