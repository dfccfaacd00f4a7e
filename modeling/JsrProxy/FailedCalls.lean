import JsrProxy.Programs

set_option autoImplicit false

/-!
# Calls that decide a program

Some answers leave a program only one kind of result. Whether they do is settled call
by call, and then holds of every run in which such an answer is given.
-/
namespace JsrProxy.Program

variable {E : Effects} {α β σ : Type} (handle : σ → (op : E.Op) → E.Ret op × σ)

def exchanges : Program E α → σ → List (Exchange E)
  | done _, _ => []
  | call op next, s => ⟨op, (handle s op).1⟩ :: exchanges (next (handle s op).1) (handle s op).2

inductive Always (P : α → Prop) : Program E α → Prop
  | done {a : α} (h : P a) : Always P (.done a)
  | call {op : E.Op} {next : E.Ret op → Program E α} (h : ∀ answer, Always P (next answer)) :
    Always P (.call op next)

/-- From a bad answer on every result satisfies `P`. -/
inductive Decided (bad : (op : E.Op) → E.Ret op → Prop) (P : α → Prop) : Program E α → Prop
  | done (a : α) : Decided bad P (.done a)
  | call {op : E.Op} {next : E.Ret op → Program E α}
      (hbad : ∀ answer, bad op answer → Always P (next answer))
      (hnext : ∀ answer, Decided bad P (next answer)) : Decided bad P (.call op next)

variable {bad : (op : E.Op) → E.Ret op → Prop} {P : α → Prop} {Q : β → Prop}

theorem always_true (p : Program E α) : p.Always fun _ => True := by
  induction p with
  | done a => exact .done trivial
  | call op next ih => exact .call ih

theorem Always.run {p : Program E α} (h : p.Always P) (s : σ) : P (p.run handle s).1 := by
  induction h generalizing s with
  | done h => exact h
  | call _ ih => exact ih _ _

theorem Always.bind {p : Program E α} (h : p.Always P) {f : α → Program E β}
    (hf : ∀ a, P a → (f a).Always Q) : (p.bind f).Always Q := by
  induction h with
  | done h => exact hf _ h
  | call _ ih => exact .call ih

theorem Always.mono {p : Program E α} (h : p.Always P) {P' : α → Prop} (hP : ∀ a, P a → P' a) :
    p.Always P' := by
  induction h with
  | done h => exact .done (hP _ h)
  | call _ ih => exact .call ih

theorem Decided.mono {p : Program E α} (h : p.Decided bad P) {P' : α → Prop}
    (hP : ∀ a, P a → P' a) : p.Decided bad P' := by
  induction h with
  | done a => exact .done a
  | call hdecides _ ih => exact .call (fun answer h => (hdecides answer h).mono hP) ih

theorem Always.decided {p : Program E α} (h : p.Always P) : p.Decided bad P := by
  induction h with
  | done h => exact .done _
  | call h ih => exact .call (fun answer _ => h answer) ih

theorem Decided.bind {p : Program E α} (h : p.Decided bad P) {f : α → Program E β}
    (hbad : ∀ a, P a → (f a).Always Q) (hf : ∀ a, (f a).Decided bad Q) :
    (p.bind f).Decided bad Q := by
  induction h with
  | done a => exact hf a
  | call hdecides _ ih => exact .call (fun answer h => (hdecides answer h).bind hbad) ih

/-- A run with a bad answer ends as the answer decides. -/
theorem Decided.run {p : Program E α} (h : p.Decided bad P) {s : σ}
    (hbad : ∃ e ∈ p.exchanges handle s, bad e.op e.answer) : P (p.run handle s).1 := by
  induction h generalizing s with
  | done a =>
    obtain ⟨e, he, -⟩ := hbad
    cases he
  | @call op next hdecides _ ih =>
    obtain ⟨e, he, hbad⟩ := hbad
    rcases List.mem_cons.1 he with rfl | he
    · exact (hdecides _ hbad).run handle _
    · exact ih _ ⟨e, he, hbad⟩

def Failed {ε : Type} (result : Except ε α) : Prop := ∃ e, result = .error e

theorem Decided.andThen {ε : Type} {p : Program E (Except ε α)} {f : α → Program E (Except ε β)}
    (h : p.Decided bad Failed) (hf : ∀ a, (f a).Decided bad Failed) :
    (p.andThen f).Decided bad Failed := by
  apply h.bind
  · rintro result ⟨e, rfl⟩
    exact .done ⟨e, rfl⟩
  · intro result
    cases result with
    | error e => exact .done _
    | ok a => exact hf a

end JsrProxy.Program
