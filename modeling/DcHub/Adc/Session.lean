import Mathlib.Data.List.Basic

/-! # Sessions over a pair of FIFO links

A `Session` is a program over one connection: it reads commands, writes them
into the connection's buffer, flushes the buffer, and ends with a result or an
error. Two sessions joined by a pair of FIFO links form a `Duplex`; either side
may take its next step whenever it can. Steps of the two sides commute, and a
session whose runs are bounded keeps the whole system bounded, so every
interleaving that cannot go on ends in the same state.
-/

namespace DcHub.Adc

/-- A program over one connection, with the Go results of its reads, writes
and flushes passed to the rest of it. -/
inductive Session (σ ε α : Type) where
  | done (r : Except ε α)
  | read (k : Except String σ → Session σ ε α)
  | write (m : σ) (k : Option String → Session σ ε α)
  | flush (k : Option String → Session σ ε α)

namespace Session

variable {σ ε α β : Type}

def bind : Session σ ε α → (α → Session σ ε β) → Session σ ε β
  | done (.ok a), f => f a
  | done (.error e), _ => done (.error e)
  | read k, f => read fun r => (k r).bind f
  | write m k, f => write m fun r => (k r).bind f
  | flush k, f => flush fun r => (k r).bind f

instance : Monad (Session σ ε) where
  pure a := done (.ok a)
  bind := bind

@[simp] theorem pure_eq (a : α) : (pure a : Session σ ε α) = done (.ok a) := rfl

@[simp] theorem bind_done_ok (a : α) (f : α → Session σ ε β) :
    (done (.ok a) >>= f) = f a := rfl

@[simp] theorem bind_done_error (e : ε) (f : α → Session σ ε β) :
    (done (.error e) >>= f) = done (.error e) := rfl

@[simp] theorem bind_read (k : Except String σ → Session σ ε α) (f : α → Session σ ε β) :
    (read k >>= f) = read fun r => k r >>= f := rfl

@[simp] theorem bind_write (m : σ) (k : Option String → Session σ ε α)
    (f : α → Session σ ε β) : (write m k >>= f) = write m fun r => k r >>= f := rfl

@[simp] theorem bind_flush (k : Option String → Session σ ε α) (f : α → Session σ ε β) :
    (flush k >>= f) = flush fun r => k r >>= f := rfl

/-- `conn.ReadCmd`. -/
def readCmd : Session σ ε (Except String σ) := read fun r => done (.ok r)

/-- `conn.WriteCmd`, which only fills the buffer. -/
def writeCmd (m : σ) : Session σ ε (Option String) := write m fun r => done (.ok r)

/-- `conn.Flush`. -/
def flushConn : Session σ ε (Option String) := flush fun r => done (.ok r)

/-- `return nil, err`. -/
def fail (e : ε) : Session σ ε α := done (.error e)

/-- Every run of the session takes at most `n` steps. -/
inductive Within : Nat → Session σ ε α → Prop
  | done {n : Nat} {r : Except ε α} : Within n (.done r)
  | read {n : Nat} {k : Except String σ → Session σ ε α} :
    (∀ r, Within n (k r)) → Within (n + 1) (.read k)
  | write {n : Nat} {m : σ} {k : Option String → Session σ ε α} :
    (∀ r, Within n (k r)) → Within (n + 1) (.write m k)
  | flush {n : Nat} {k : Option String → Session σ ε α} :
    (∀ r, Within n (k r)) → Within (n + 1) (.flush k)

theorem Within.mono {n m : Nat} {x : Session σ ε α} (h : Within n x) (hnm : n ≤ m) :
    Within m x := by
  induction h generalizing m with
  | done => exact .done
  | read _ ih =>
    obtain ⟨m, rfl⟩ := Nat.exists_eq_add_of_lt hnm
    exact .read fun r => ih r (by omega)
  | write _ ih =>
    obtain ⟨m, rfl⟩ := Nat.exists_eq_add_of_lt hnm
    exact .write fun r => ih r (by omega)
  | flush _ ih =>
    obtain ⟨m, rfl⟩ := Nat.exists_eq_add_of_lt hnm
    exact .flush fun r => ih r (by omega)

theorem Within.bind {n : Nat} {x : Session σ ε α} {f : α → Session σ ε β} (hx : Within n x)
    (m : Nat) (hf : ∀ a, Within m (f a)) : Within (n + m) (x >>= f) := by
  induction hx with
  | @done n r =>
    cases r with
    | ok a => exact (hf a).mono (by omega)
    | error e => exact .done
  | read _ ih => rw [bind_read, Nat.add_right_comm]; exact .read ih
  | write _ ih => rw [bind_write, Nat.add_right_comm]; exact .write ih
  | flush _ ih => rw [bind_flush, Nat.add_right_comm]; exact .flush ih

theorem within_readCmd : Within 1 (readCmd : Session σ ε (Except String σ)) :=
  .read fun _ => .done

theorem within_writeCmd (m : σ) : Within 1 (writeCmd m : Session σ ε (Option String)) :=
  .write fun _ => .done

theorem within_flushConn : Within 1 (flushConn : Session σ ε (Option String)) :=
  .flush fun _ => .done

end Session

/-- One side of a connection: the rest of its session, what it has written and
not flushed, what the other side has flushed to it and it has not read, and
what it has read. -/
structure End (σ ε α : Type) where
  prog : Session σ ε α
  buf : List σ
  inbox : List σ
  log : List σ

namespace End

variable {σ ε α : Type}

/-- A side's next step, with what it flushes to the other side; `none` when it
is done or waits for a command that has not come. Writes and flushes succeed. -/
def step (e : End σ ε α) : Option (End σ ε α × List σ) :=
  match e.prog, e.inbox with
  | .done _, _ => none
  | .read _, [] => none
  | .read k, m :: ms => some ({ e with prog := k (.ok m), inbox := ms, log := e.log ++ [m] }, [])
  | .write m k, _ => some ({ e with prog := k none, buf := e.buf ++ [m] }, [])
  | .flush k, _ => some ({ e with prog := k none, buf := [] }, e.buf)

/-- The other side's flush arrives. -/
def deliver (e : End σ ε α) (ms : List σ) : End σ ε α := { e with inbox := e.inbox ++ ms }

@[simp] theorem deliver_prog (e : End σ ε α) (ms : List σ) : (e.deliver ms).prog = e.prog := rfl

/-- What arrives behind a side's inbox does not change its step. -/
theorem step_deliver {e e' : End σ ε α} {out : List σ} (h : e.step = some (e', out))
    (ms : List σ) : (e.deliver ms).step = some (e'.deliver ms, out) := by
  obtain ⟨prog, buf, inbox, log⟩ := e
  cases prog <;> cases inbox <;> simp_all [step, deliver]
  all_goals obtain ⟨rfl, rfl⟩ := h; simp

/-- A step takes one step off the bound of a side's session. -/
theorem step_within {e e' : End σ ε α} {out : List σ} {n : Nat} (h : e.step = some (e', out))
    (hn : e.prog.Within n) : ∃ m, n = m + 1 ∧ e'.prog.Within m := by
  obtain ⟨prog, buf, inbox, log⟩ := e
  cases hn with
  | done => cases inbox <;> simp [step] at h
  | read hk =>
    cases inbox with
    | nil => simp [step] at h
    | cons m ms => simp only [step, Option.some.injEq, Prod.mk.injEq] at h; exact ⟨_, rfl, h.1 ▸ hk _⟩
  | write hk => simp only [step, Option.some.injEq, Prod.mk.injEq] at h; exact ⟨_, rfl, h.1 ▸ hk _⟩
  | flush hk => simp only [step, Option.some.injEq, Prod.mk.injEq] at h; exact ⟨_, rfl, h.1 ▸ hk _⟩

end End

/-- Two sessions joined by a pair of FIFO links. -/
structure Duplex (σ ε α β : Type) where
  a : End σ ε α
  b : End σ ε β

namespace Duplex

variable {σ ε α β : Type}

/-- Two sessions about to start. -/
def start (x : Session σ ε α) (y : Session σ ε β) : Duplex σ ε α β :=
  ⟨⟨x, [], [], []⟩, ⟨y, [], [], []⟩⟩

/-- A step of side `a` (`true`) or side `b` (`false`). -/
def step (d : Duplex σ ε α β) : Bool → Option (Duplex σ ε α β)
  | true => d.a.step.map fun (a, out) => ⟨a, d.b.deliver out⟩
  | false => d.b.step.map fun (b, out) => ⟨d.a.deliver out, b⟩

/-- The steps in order; `none` at the first side that cannot move. -/
def run : List Bool → Duplex σ ε α β → Option (Duplex σ ε α β)
  | [], d => some d
  | x :: xs, d => (d.step x).bind (run xs)

/-- Neither side can move. -/
def Final (d : Duplex σ ε α β) : Prop := d.a.step = none ∧ d.b.step = none

theorem step_true_eq_none {d : Duplex σ ε α β} (h : d.step true = none) : d.a.step = none := by
  simpa [step] using h

theorem step_false_eq_none {d : Duplex σ ε α β} (h : d.step false = none) :
    d.b.step = none := by
  simpa [step] using h

theorem final_iff {d : Duplex σ ε α β} : d.Final ↔ ∀ x, d.step x = none := by
  refine ⟨fun ⟨ha, hb⟩ x => ?_, fun h => ⟨step_true_eq_none (h true), step_false_eq_none (h false)⟩⟩
  cases x <;> simp [step, ha, hb]

/-- The diamond: when both sides can move, either order ends in the same state. -/
theorem step_comm {d d₁ d₂ : Duplex σ ε α β} (h₁ : d.step true = some d₁)
    (h₂ : d.step false = some d₂) : ∃ d', d₁.step false = some d' ∧ d₂.step true = some d' := by
  obtain ⟨⟨a', oa⟩, ha, rfl⟩ := Option.map_eq_some'.1 h₁
  obtain ⟨⟨b', ob⟩, hb, rfl⟩ := Option.map_eq_some'.1 h₂
  exact ⟨⟨a'.deliver ob, b'.deliver oa⟩, by simp [step, End.step_deliver hb],
    by simp [step, End.step_deliver ha]⟩

/-- The sum of bounds on the two sides' sessions. -/
def Within (N : Nat) (d : Duplex σ ε α β) : Prop :=
  ∃ na nb, d.a.prog.Within na ∧ d.b.prog.Within nb ∧ na + nb ≤ N

theorem Within.step {N : Nat} {d d' : Duplex σ ε α β} {x : Bool} (hd : d.Within N)
    (h : d.step x = some d') : ∃ M, N = M + 1 ∧ d'.Within M := by
  obtain ⟨na, nb, ha, hb, hn⟩ := hd
  cases x with
  | true =>
    obtain ⟨⟨a', out⟩, hs, rfl⟩ := Option.map_eq_some'.1 h
    obtain ⟨m, rfl, hm⟩ := End.step_within hs ha
    exact ⟨N - 1, by omega, m, nb, hm, hb, by omega⟩
  | false =>
    obtain ⟨⟨b', out⟩, hs, rfl⟩ := Option.map_eq_some'.1 h
    obtain ⟨m, rfl, hm⟩ := End.step_within hs hb
    exact ⟨N - 1, by omega, na, m, ha, hm, by omega⟩

/-- A bounded system has runs no longer than its bound. -/
theorem Within.length_le {N : Nat} {d d' : Duplex σ ε α β} {xs : List Bool} (hd : d.Within N)
    (h : run xs d = some d') : xs.length ≤ N := by
  induction xs generalizing N d with
  | nil => exact Nat.zero_le _
  | cons x xs ih =>
    obtain ⟨e, he, h⟩ := Option.bind_eq_some.mp h
    obtain ⟨M, rfl, hM⟩ := hd.step he
    exact Nat.succ_le_succ (ih hM h)

/-- A bounded system has a run that cannot go on. -/
theorem Within.exists_final {N : Nat} {d : Duplex σ ε α β} (hd : d.Within N) :
    ∃ xs d', run xs d = some d' ∧ d'.Final := by
  induction N generalizing d with
  | zero =>
    refine ⟨[], d, rfl, final_iff.2 fun x => ?_⟩
    cases h : d.step x with
    | none => rfl
    | some e => obtain ⟨M, hM, -⟩ := hd.step h; omega
  | succ N ih =>
    by_cases hf : d.Final
    · exact ⟨[], d, rfl, hf⟩
    · obtain ⟨x, hx⟩ : ∃ x, d.step x ≠ none := by
        by_contra hc
        push_neg at hc
        exact hf (final_iff.2 hc)
      obtain ⟨e, he⟩ := Option.ne_none_iff_exists'.1 hx
      obtain ⟨M, hM, he'⟩ := hd.step he
      obtain ⟨xs, d', hr, hf'⟩ := ih (show e.Within N by rwa [show N = M by omega])
      exact ⟨x :: xs, d', by simp [run, he, hr], hf'⟩

/-- Two runs of a bounded system that cannot go on end in the same state. -/
theorem Within.final_unique {N : Nat} {d d₁ d₂ : Duplex σ ε α β} {xs ys : List Bool}
    (hd : d.Within N) (h₁ : run xs d = some d₁) (hf₁ : d₁.Final) (h₂ : run ys d = some d₂)
    (hf₂ : d₂.Final) : d₁ = d₂ := by
  induction N generalizing d d₁ d₂ xs ys with
  | zero =>
    have hx : ∀ {zs : List Bool} {d' : Duplex σ ε α β}, run zs d = some d' → d' = d := by
      intro zs d' h
      have := hd.length_le h
      match zs, this with
      | [], _ => exact (Option.some.inj h).symm
    rw [hx h₁, hx h₂]
  | succ N ih =>
    match xs, ys with
    | [], [] => exact (Option.some.inj h₁).symm.trans (Option.some.inj h₂)
    | [], y :: ys =>
      obtain rfl : d = d₁ := Option.some.inj h₁
      obtain ⟨e, he, -⟩ := Option.bind_eq_some.mp h₂
      simp [final_iff.1 hf₁ y] at he
    | x :: xs, [] =>
      obtain rfl : d = d₂ := Option.some.inj h₂
      obtain ⟨e, he, -⟩ := Option.bind_eq_some.mp h₁
      simp [final_iff.1 hf₂ x] at he
    | x :: xs, y :: ys =>
      obtain ⟨e₁, he₁, h₁⟩ := Option.bind_eq_some.mp h₁
      obtain ⟨e₂, he₂, h₂⟩ := Option.bind_eq_some.mp h₂
      obtain ⟨M₁, hM₁, hw₁⟩ := hd.step he₁
      obtain ⟨M₂, hM₂, hw₂⟩ := hd.step he₂
      obtain rfl : M₁ = N := by omega
      obtain rfl : M₂ = M₁ := by omega
      by_cases hxy : x = y
      · subst hxy
        obtain rfl : e₁ = e₂ := Option.some.inj (he₁.symm.trans he₂)
        exact ih hw₁ h₁ hf₁ h₂ hf₂
      · -- the two sides each moved first: close the diamond and follow any maximal run
        have hcomm : ∃ f, e₁.step y = some f ∧ e₂.step x = some f := by
          cases x <;> cases y <;> simp at hxy
          · obtain ⟨f, h, h'⟩ := step_comm he₂ he₁; exact ⟨f, h', h⟩
          · exact step_comm he₁ he₂
        obtain ⟨f, hf₁', hf₂'⟩ := hcomm
        obtain ⟨M, hM, hwf⟩ := hw₁.step hf₁'
        obtain ⟨zs, g, hg, hgf⟩ := hwf.exists_final
        have hg₁ : run (y :: zs) e₁ = some g := by simp [run, hf₁', hg]
        have hg₂ : run (x :: zs) e₂ = some g := by simp [run, hf₂', hg]
        exact (ih hw₁ h₁ hf₁ hg₁ hgf).trans (ih hw₂ hg₂ hgf h₂ hf₂)

end Duplex

end DcHub.Adc
