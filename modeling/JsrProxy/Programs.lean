import JsrProxy.Executions

set_option autoImplicit false

/-!
# Programs that call out

A program is its result, or a call and what it goes on to do with the answer. A
handler answers the calls against a state, one after another.
-/
namespace JsrProxy

structure Effects where
  Op : Type
  Ret : Op → Type

structure Exchange (E : Effects) where
  op : E.Op
  answer : E.Ret op

def Effects.tagged (E : Effects) (κ : Type) : Effects := ⟨κ × E.Op, fun op => E.Ret op.2⟩

def Effects.sum (E F : Effects) : Effects := ⟨E.Op ⊕ F.Op, Sum.elim E.Ret F.Ret⟩

inductive Program (E : Effects) (α : Type)
  | done (result : α)
  | call (op : E.Op) (next : E.Ret op → Program E α)

namespace Program

variable {E : Effects} {α β σ : Type}

def bind : Program E α → (α → Program E β) → Program E β
  | done a, f => f a
  | call op next, f => call op fun answer => (next answer).bind f

instance : Monad (Program E) where
  pure := done
  bind := bind

def perform (op : E.Op) : Program E (E.Ret op) := call op done

def run (handle : σ → (op : E.Op) → E.Ret op × σ) : Program E α → σ → α × σ
  | done a, s => (a, s)
  | call op next, s => run handle (next (handle s op).1) (handle s op).2

def left {F : Effects} : Program E α → Program (E.sum F) α
  | done a => .done a
  | call op next => .call (.inl op : (E.sum F).Op) fun answer : E.Ret op => (next answer).left

def right {F : Effects} : Program F α → Program (E.sum F) α
  | done a => .done a
  | call op next => .call (.inr op : (E.sum F).Op) fun answer : F.Ret op => (next answer).right

def tag {κ : Type} (key : κ) : Program E α → Program (E.tagged κ) α
  | done a => .done a
  | call op next => .call ((key, op) : (E.tagged κ).Op) fun answer : E.Ret op => (next answer).tag key

def andThen {ε : Type} (p : Program E (Except ε α)) (f : α → Program E (Except ε β)) :
    Program E (Except ε β) :=
  p.bind fun result =>
    match result with
    | .error e => .done (.error e)
    | .ok a => f a

def calls (handle : σ → (op : E.Op) → E.Ret op × σ) : Program E α → σ → List (σ × E.Op)
  | done _, _ => []
  | call op next, s => (s, op) :: calls handle (next (handle s op).1) (handle s op).2

variable (handle : σ → (op : E.Op) → E.Ret op × σ)

@[simp] theorem run_done (a : α) (s : σ) : run handle (done a : Program E α) s = (a, s) := rfl

@[simp] theorem run_call (op : E.Op) (next : E.Ret op → Program E α) (s : σ) :
    run handle (call op next) s = run handle (next (handle s op).1) (handle s op).2 := rfl

@[simp] theorem calls_done (a : α) (s : σ) : calls handle (done a : Program E α) s = [] := rfl

@[simp] theorem calls_call (op : E.Op) (next : E.Ret op → Program E α) (s : σ) :
    calls handle (call op next) s =
      (s, op) :: calls handle (next (handle s op).1) (handle s op).2 := rfl

theorem run_bind (p : Program E α) (f : α → Program E β) (s : σ) :
    run handle (p.bind f) s = run handle (f (run handle p s).1) (run handle p s).2 := by
  induction p generalizing s with
  | done a => rfl
  | call op next ih => exact ih _ _

theorem run_andThen {ε : Type} {p : Program E (Except ε α)} {f : α → Program E (Except ε β)} {s t : σ}
    {a : α} (h : run handle p s = (.ok a, t)) : run handle (p.andThen f) s = run handle (f a) t := by
  rw [andThen, run_bind, h]

theorem run_andThen_error {ε : Type} {p : Program E (Except ε α)} {f : α → Program E (Except ε β)}
    {s t : σ} {e : ε} (h : run handle p s = (.error e, t)) :
    run handle (p.andThen f) s = (.error e, t) := by
  rw [andThen, run_bind, h]
  rfl

theorem calls_bind (p : Program E α) (f : α → Program E β) (s : σ) :
    (p.bind f).calls handle s =
      p.calls handle s ++ (f (p.run handle s).1).calls handle (p.run handle s).2 := by
  induction p generalizing s with
  | done a => rfl
  | call op next ih => exact congrArg ((s, op) :: ·) (ih _ _)

/-- A run whose calls are answered as a relation allows. -/
inductive Runs (Step : σ → (op : E.Op) → E.Ret op → σ → Prop) : Program E α → σ → α → σ → Prop
  | done (a : α) (s : σ) : Runs Step (.done a) s a s
  | call {op : E.Op} {next : E.Ret op → Program E α} {s t u : σ} {answer : E.Ret op} {a : α}
      (hstep : Step s op answer t) (hrest : Runs Step (next answer) t a u) :
    Runs Step (.call op next) s a u

theorem Runs.bind {Step : σ → (op : E.Op) → E.Ret op → σ → Prop} {p : Program E α}
    {f : α → Program E β} {s t u : σ} {a : α} {b : β} (hp : Runs Step p s a t)
    (hf : Runs Step (f a) t b u) : Runs Step (p.bind f) s b u := by
  induction hp with
  | done a s => exact hf
  | call hstep _ ih => exact .call hstep (ih hf)

theorem runs_right {F : Effects} {Step : σ → (op : (E.sum F).Op) → (E.sum F).Ret op → σ → Prop}
    {p : Program F α} {s t : σ} {a : α} :
    Runs Step p.right s a t ↔ Runs (fun s op answer t => Step s (.inr op) answer t) p s a t := by
  induction p generalizing s with
  | done b =>
    constructor <;> intro h <;> cases h <;> exact .done _ _
  | call op next ih =>
    constructor
    · intro h
      cases h with
      | call hstep hrest => exact .call hstep ((ih _).1 hrest)
    · intro h
      cases h with
      | call hstep hrest => exact .call hstep ((ih _).2 hrest)

/-- Whatever others do to the state before each call, within `rely`, the program's own
    calls stay within `guar` and its result satisfies `post`. -/
inductive Ensures (Step : σ → (op : E.Op) → E.Ret op → σ → Prop) (rely guar : σ → σ → Prop)
    (post : α → σ → Prop) : Program E α → σ → Prop
  | done {a : α} {s : σ} (h : post a s) : Ensures Step rely guar post (.done a) s
  | call {op : E.Op} {next : E.Ret op → Program E α} {s : σ}
      (hguar : ∀ t, rely s t → ∀ answer u, Step t op answer u → guar t u)
      (hnext : ∀ t, rely s t → ∀ answer u, Step t op answer u →
        Ensures Step rely guar post (next answer) u) : Ensures Step rely guar post (.call op next) s

variable {Step : σ → (op : E.Op) → E.Ret op → σ → Prop} {rely guar : σ → σ → Prop}
  {post post' : α → σ → Prop}

theorem Ensures.of_call {op : E.Op} {next : E.Ret op → Program E α} {s : σ}
    (h : ∀ t, rely s t → ∀ answer u, Step t op answer u →
      guar t u ∧ Ensures Step rely guar post (next answer) u) :
    Ensures Step rely guar post (.call op next) s :=
  .call (fun t ht answer u hu => (h t ht answer u hu).1) fun t ht answer u hu => (h t ht answer u hu).2

theorem Ensures.mono {p : Program E α} {s : σ} (h : Ensures Step rely guar post p s)
    (hpost : ∀ a t, post a t → post' a t) : Ensures Step rely guar post' p s := by
  induction h with
  | done h => exact .done (hpost _ _ h)
  | call hguar _ ih => exact .call hguar ih

theorem Ensures.bind {p : Program E α} {f : α → Program E β} {s : σ} {final : β → σ → Prop}
    (h : Ensures Step rely guar post p s)
    (hf : ∀ a t, post a t → Ensures Step rely guar final (f a) t) :
    Ensures Step rely guar final (p.bind f) s := by
  induction h with
  | done h => exact hf _ _ h
  | call hguar _ ih => exact .call hguar ih

theorem Ensures.tag {κ : Type} {key : κ}
    {Step : σ → (op : (E.tagged κ).Op) → (E.tagged κ).Ret op → σ → Prop} {p : Program E α} {s : σ}
    (h : Ensures (fun s op (answer : E.Ret op) t => Step s ((key, op) : (E.tagged κ).Op) answer t) rely
      guar post p s) : Ensures Step rely guar post (p.tag key) s := by
  induction h with
  | done h => exact .done h
  | call hguar _ ih => exact .call hguar ih

/-- What neither the others nor the program undo stays true. -/
theorem Ensures.frame {p : Program E α} {s : σ} {I : σ → Prop}
    (hrely : ∀ u t, rely u t → I u → I t) (hguar : ∀ u t, guar u t → I u → I t)
    (h : Ensures Step rely guar post p s) (hs : I s) :
    Ensures Step rely guar (fun a t => post a t ∧ I t) p s := by
  induction h with
  | done h => exact .done ⟨h, hs⟩
  | call hstep _ ih =>
    refine .call hstep ?_
    intro t ht answer u hu
    exact ih t ht answer u hu (hguar t u (hstep t ht answer u hu) (hrely _ t ht hs))

/-- What a program ensures among others holds of its undisturbed runs. -/
theorem Ensures.of_runs {p : Program E α} {s t : σ} {a : α} (hrefl : ∀ u, rely u u)
    (h : Ensures Step rely guar post p s) (hrun : Runs Step p s a t) :
    post a t ∧ Relation.ReflTransGen guar s t := by
  induction hrun with
  | done a s =>
    cases h with
    | done h => exact ⟨h, .refl⟩
  | call hstep _ ih =>
    cases h with
    | call hguar hnext =>
      obtain ⟨hpost, htrans⟩ := ih (hnext _ (hrefl _) _ _ hstep)
      exact ⟨hpost, .head (hguar _ (hrefl _) _ _ hstep) htrans⟩

def recording (answer : List (Exchange E) → (op : E.Op) → E.Ret op) (past : List (Exchange E)) (op : E.Op) :
    E.Ret op × List (Exchange E) :=
  (answer past op, ⟨op, answer past op⟩ :: past)

/-- Each call of the program meets the condition, whatever the earlier ones are answered. -/
inductive Within (C : List (Exchange E) → E.Op → Prop) : Program E α → List (Exchange E) → Prop
  | done (result : α) (past : List (Exchange E)) : Within C (.done result) past
  | call {op : E.Op} {next : E.Ret op → Program E α} {past : List (Exchange E)} (hop : C past op)
      (hnext : ∀ answer, Within C (next answer) (⟨op, answer⟩ :: past)) : Within C (.call op next) past

theorem Within.calls {C : List (Exchange E) → E.Op → Prop} {p : Program E α} {past : List (Exchange E)}
    (h : p.Within C past) (answer : List (Exchange E) → (op : E.Op) → E.Ret op) :
    ∀ met ∈ p.calls (recording answer) past, C met.1 met.2 := by
  induction h with
  | done => exact fun _ hmet => absurd hmet List.not_mem_nil
  | call hop _ ih =>
    intro met hmet
    rcases List.mem_cons.1 hmet with rfl | hmet
    · exact hop
    · exact ih _ met hmet

/-- Each call that the program can make meets the condition. -/
inductive Asks (C : E.Op → Prop) : Program E α → Prop
  | done (result : α) : Asks C (.done result)
  | call {op : E.Op} {next : E.Ret op → Program E α} (hop : C op) (hnext : ∀ answer, Asks C (next answer)) :
    Asks C (.call op next)

theorem Asks.bind {C : E.Op → Prop} {p : Program E α} {f : α → Program E β} (h : p.Asks C)
    (hf : ∀ a, (f a).Asks C) : (p.bind f).Asks C := by
  induction h with
  | done result => exact hf result
  | call hop _ ih => exact .call hop ih

theorem Asks.andThen {ε : Type} {C : E.Op → Prop} {p : Program E (Except ε α)}
    {f : α → Program E (Except ε β)} (h : p.Asks C) (hf : ∀ a, (f a).Asks C) : (p.andThen f).Asks C := by
  apply h.bind
  intro result
  cases result with
  | error e => exact .done _
  | ok a => exact hf a

theorem Asks.calls {C : E.Op → Prop} {p : Program E α} (h : p.Asks C)
    (handle : σ → (op : E.Op) → E.Ret op × σ) (s : σ) : ∀ met ∈ p.calls handle s, C met.2 := by
  induction h generalizing s with
  | done => exact fun _ hmet => absurd hmet List.not_mem_nil
  | call hop _ ih =>
    intro met hmet
    rcases List.mem_cons.1 hmet with rfl | hmet
    · exact hop
    · exact ih _ _ met hmet

end Program
end JsrProxy
