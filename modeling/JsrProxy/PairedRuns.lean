import JsrProxy.Interleavings

set_option autoImplicit false

/-!
# Paired runs

Two runs whose programs make calls that are alike. Where calls that are alike are
answered alike, the runs reach one state, and they differ only in the calls.
-/
namespace JsrProxy

variable {E : Effects} {σ ρ χ α : Type}

theorem forall₂_getElem? {β γ : Type} {R : β → γ → Prop} {l : List β} {l' : List γ}
    (h : List.Forall₂ R l l') (i : ℕ) : Option.Rel R l[i]? l'[i]? := by
  induction h generalizing i with
  | nil => exact .none
  | cons hab _ ih =>
    cases i with
    | zero => exact .some hab
    | succ i => exact ih i

theorem forall₂_set {β γ : Type} {R : β → γ → Prop} {l : List β} {l' : List γ}
    (h : List.Forall₂ R l l') {b : β} {c : γ} (hbc : R b c) (i : ℕ) :
    List.Forall₂ R (l.set i b) (l'.set i c) := by
  induction h generalizing i with
  | nil => exact .nil
  | cons hab htail ih =>
    cases i with
    | zero => exact .cons hbc htail
    | succ i => exact .cons hab (ih i)

/-- The two programs make calls that are alike and come to the same results, as long as
    each of the calls is answered in the same way. -/
inductive Program.Alike (S : E.Op → E.Op → Prop) : Program E α → Program E α → Prop
  | done (result : α) : Alike S (.done result) (.done result)
  | call {op op' : E.Op} {next : E.Ret op → Program E α} {next' : E.Ret op' → Program E α} (hop : S op op')
    (hnext : ∀ answer answer', HEq answer answer' → Alike S (next answer) (next' answer')) :
    Alike S (.call op next) (.call op' next')

theorem Program.Alike.refl {S : E.Op → E.Op → Prop} (hS : ∀ op, S op op) (p : Program E α) :
    p.Alike S p := by
  induction p with
  | done result => exact .done result
  | call op next ih =>
    apply Alike.call (hS op)
    intro answer answer' h
    obtain rfl := eq_of_heq h
    exact ih answer

structure Called.Alike (S : E.Op → E.Op → Prop) (called called' : Called E ρ) : Prop where
  thread : called.thread = called'.thread
  op : S called.op called'.op
  answer : HEq called.answer called'.answer

structure Pool.Alike (S : E.Op → E.Op → Prop) (pool pool' : Pool E σ ρ α) : Prop where
  world : pool.scene.world = pool'.scene.world
  history : List.Forall₂ (Called.Alike S) pool.scene.history pool'.scene.history
  threads : List.Forall₂ (fun thread thread' => thread.program.Alike S thread'.program) pool.threads
    pool'.threads

inductive PoolEvent.Alike (Q : ρ → ρ → Prop) : PoolEvent ρ χ → PoolEvent ρ χ → Prop
  | start {request request' : ρ} (h : Q request request') : Alike Q (.start request) (.start request')
  | advance (i : ℕ) (choice : χ) : Alike Q (.advance i choice) (.advance i choice)

namespace Pool

variable {handler : ρ → Program E α} {answer : σ → χ → (op : E.Op) → E.Ret op × σ}
  {S : E.Op → E.Op → Prop} {Q : ρ → ρ → Prop}

theorem Alike.step (hhandler : ∀ request request', Q request request' →
      (handler request).Alike S (handler request'))
    (hanswer : ∀ s choice op op', S op op' → HEq (answer s choice op).1 (answer s choice op').1 ∧
      (answer s choice op).2 = (answer s choice op').2)
    {pool pool' : Pool E σ ρ α} (h : pool.Alike S pool') {e e' : PoolEvent ρ χ} (he : e.Alike Q e') :
    (Pool.step handler answer pool e).Alike S (Pool.step handler answer pool' e') := by
  obtain ⟨⟨world, history⟩, threads⟩ := pool
  obtain ⟨⟨world', history'⟩, threads'⟩ := pool'
  obtain ⟨hworld, hhistory, hthreads⟩ := h
  dsimp only at hworld hhistory hthreads
  subst hworld
  cases he with
  | start hrequest =>
    refine ⟨rfl, hhistory, ?_⟩
    exact List.rel_append hthreads (.cons (hhandler _ _ hrequest) .nil)
  | advance i choice =>
    have hthread := forall₂_getElem? hthreads i
    cases h : threads[i]? with
    | none =>
      rw [h] at hthread
      cases h' : threads'[i]? with
      | none =>
        simp only [Pool.step, h, h']
        exact ⟨rfl, hhistory, hthreads⟩
      | some thread' =>
        rw [h'] at hthread
        cases hthread
    | some thread =>
      rw [h] at hthread
      cases h' : threads'[i]? with
      | none =>
        rw [h'] at hthread
        cases hthread
      | some thread' =>
        rw [h'] at hthread
        obtain ⟨request, program⟩ := thread
        obtain ⟨request', program'⟩ := thread'
        cases hthread with
        | some hprogram =>
        dsimp only at hprogram
        cases hprogram with
        | done result =>
          simp only [Pool.step, h, h']
          exact ⟨rfl, hhistory, hthreads⟩
        | @call op op' next next' hop hnext =>
          obtain ⟨hresult, hnew⟩ := hanswer world choice op op' hop
          rw [Pool.step_advance handler answer h, Pool.step_advance handler answer h']
          exact ⟨hnew, .cons ⟨rfl, hop, hresult⟩ hhistory, forall₂_set hthreads (hnext _ _ hresult) i⟩

open Executions in
/-- Two runs over events that are alike stay alike. -/
theorem Alike.run (hhandler : ∀ request request', Q request request' →
      (handler request).Alike S (handler request'))
    (hanswer : ∀ s choice op op', S op op' → HEq (answer s choice op).1 (answer s choice op').1 ∧
      (answer s choice op).2 = (answer s choice op').2)
    {pool pool' : Pool E σ ρ α} (h : pool.Alike S pool') {events events' : List (PoolEvent ρ χ)}
    (hevents : List.Forall₂ (PoolEvent.Alike Q) events events') :
    (run (Pool.step handler answer) pool events).Alike S (run (Pool.step handler answer) pool' events') := by
  induction hevents generalizing pool pool' with
  | nil => exact h
  | cons he _ ih => exact ih (h.step hhandler hanswer he)

theorem Alike.finished {pool pool' : Pool E σ ρ α} (h : pool.Alike S pool') (i : ℕ) (result : α) :
    (∃ request, pool.Finished i request result) ↔ ∃ request, pool'.Finished i request result := by
  have hthread := forall₂_getElem? h.threads i
  unfold Pool.Finished
  generalize pool.threads[i]? = found, pool'.threads[i]? = found' at hthread
  cases hthread with
  | none => simp
  | @some thread thread' hprogram =>
    obtain ⟨request, program⟩ := thread
    obtain ⟨request', program'⟩ := thread'
    dsimp only at hprogram
    cases hprogram with
    | done result' => simp
    | call hop hnext => simp

end Pool
end JsrProxy
