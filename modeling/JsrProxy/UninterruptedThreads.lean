import JsrProxy.OwnCalls

set_option autoImplicit false

/-!
# Uninterrupted threads

A thread that has every turn runs to the end of its program, and comes to what the program
comes to when the outside answers its calls one after another. A choice is made for each
call.
-/
namespace JsrProxy

variable {E : Effects} {σ ρ χ α : Type}

def answered (answer : σ → χ → (op : E.Op) → E.Ret op × σ) (outside : E.Op → χ) (s : σ) (op : E.Op) :
    E.Ret op × σ := answer s (outside op) op

namespace Program

def choices (answer : σ → χ → (op : E.Op) → E.Ret op × σ) (outside : E.Op → χ) : Program E α → σ → List χ
  | done _, _ => []
  | call op next, s => outside op ::
      choices answer outside (next (answer s (outside op) op).1) (answer s (outside op) op).2

theorem runs_run (handle : σ → (op : E.Op) → E.Ret op × σ) (p : Program E α) (s : σ) :
    p.Runs (fun s op answer t => handle s op = (answer, t)) s (p.run handle s).1 (p.run handle s).2 := by
  induction p generalizing s with
  | done a => exact .done _ _
  | call op next ih => exact .call rfl (ih _ _)

theorem Runs.mono {Step Step' : σ → (op : E.Op) → E.Ret op → σ → Prop} {p : Program E α} {s t : σ} {a : α}
    (h : p.Runs Step s a t) (hstep : ∀ s op answer t, Step s op answer t → Step' s op answer t) :
    p.Runs Step' s a t := by
  induction h with
  | done a s => exact .done a s
  | call hcall _ ih => exact .call (hstep _ _ _ _ hcall) ih

end Program

namespace Pool
open Executions

variable (handler : ρ → Program E α) (answer : σ → χ → (op : E.Op) → E.Ret op × σ)

theorem advanced_thread {i : ℕ} {request : ρ} {op : E.Op} {next : E.Ret op → Program E α}
    {pool : Pool E σ ρ α} (h : pool.threads[i]? = some ⟨request, .call op next⟩) (choice : χ) :
    (step handler answer pool (.advance i choice)).threads[i]?
      = some ⟨request, next (answer pool.scene.world choice op).1⟩ := by
  rw [step_advance handler answer h choice]
  exact List.getElem?_set_self (List.getElem?_eq_some_iff.1 h).1

/-- With its turns alone, a thread comes to the result of its program's run. The others stay
    where they are. -/
theorem run_choices (outside : E.Op → χ) {i : ℕ} {request : ρ} {p : Program E α} {pool : Pool E σ ρ α}
    (h : pool.threads[i]? = some ⟨request, p⟩) : ∃ history,
      run (step handler answer) pool ((p.choices answer outside pool.scene.world).map (.advance i)) =
        ⟨⟨(p.run (answered answer outside) pool.scene.world).2, history⟩,
          pool.threads.set i ⟨request, .done (p.run (answered answer outside) pool.scene.world).1⟩⟩ ∧
      ∀ called ∈ pool.scene.history, called ∈ history := by
  induction p generalizing pool with
  | done result =>
    refine ⟨pool.scene.history, ?_, fun _ hcalled => hcalled⟩
    have hsame : pool.threads.set i ⟨request, .done result⟩ = pool.threads := by
      obtain ⟨hlt, hi⟩ := List.getElem?_eq_some_iff.1 h
      rw [← hi]
      exact List.set_getElem_self hlt
    change pool = ⟨⟨pool.scene.world, pool.scene.history⟩, pool.threads.set i ⟨request, .done result⟩⟩
    rw [hsame]
  | call op next ih =>
    have hnext := advanced_thread handler answer h (outside op)
    rw [step_advance handler answer h (outside op)] at hnext
    obtain ⟨history, hrun, hkept⟩ := ih _ hnext
    rw [Program.choices, List.map_cons, run_cons, step_advance handler answer h (outside op)]
    refine ⟨history, ?_, fun called hcalled => hkept called (List.mem_cons_of_mem _ hcalled)⟩
    rw [List.set_set] at hrun
    exact hrun

theorem admitted_choices {C : Scene E σ ρ → ℕ → ρ → E.Op → χ → Prop} (outside : E.Op → χ) {i : ℕ} {request : ρ}
    (hC : ∀ scene op, C scene i request op (outside op)) {p : Program E α} {pool : Pool E σ ρ α}
    (h : pool.threads[i]? = some ⟨request, p⟩) :
    Admitted (step handler answer) (Admits C) pool
      ((p.choices answer outside pool.scene.world).map (.advance i)) := by
  induction p generalizing pool with
  | done result => trivial
  | call op next ih =>
    constructor
    · intro request' op' next' h'
      obtain ⟨rfl, hsame⟩ := Thread.mk.inj (Option.some.inj (h.symm.trans h'))
      obtain ⟨rfl, -⟩ := Program.call.inj hsame
      exact hC _ _
    · have hnext := advanced_thread handler answer h (outside op)
      rw [step_advance handler answer h (outside op)] at hnext ⊢
      exact ih _ hnext

end Pool

namespace Program

/-- A program whose calls concern one part of the state runs on that part alone. -/
theorem run_part {τ : Type} {whole : τ → (op : E.Op) → E.Ret op × τ} {part : σ → (op : E.Op) → E.Ret op × σ}
    (get : τ → σ) (set : τ → σ → τ) (hself : ∀ t, set t (get t) = t) (hget : ∀ t s, get (set t s) = s)
    (hset : ∀ t s s', set (set t s) s' = set t s')
    (hcall : ∀ t op, whole t op = ((part (get t) op).1, set t (part (get t) op).2)) (p : Program E α) (t : τ) :
    p.run whole t = ((p.run part (get t)).1, set t (p.run part (get t)).2) := by
  induction p generalizing t with
  | done a => rw [run_done, run_done, hself]
  | call op next ih => rw [run_call, run_call, hcall, ih, hget, hset]

theorem run_tag {κ : Type} {key : κ} {handle : σ → (op : (E.tagged κ).Op) → (E.tagged κ).Ret op × σ}
    (p : Program E α) (s : σ) :
    (p.tag key).run handle s = p.run (fun s op => handle s ((key, op) : (E.tagged κ).Op)) s := by
  induction p generalizing s with
  | done a => rfl
  | call op next ih => exact ih _ _

end Program
end JsrProxy
