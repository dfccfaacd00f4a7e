import JsrProxy.Programs

set_option autoImplicit false

/-!
# Interleaved handlers

Any number of programs that run against one shared state. An event starts a request
or lets one program make its next call, which a choice of the outside answers.
-/
namespace JsrProxy

structure Called (E : Effects) (ρ : Type) where
  thread : ℕ
  request : ρ
  op : E.Op
  answer : E.Ret op

structure Scene (E : Effects) (σ ρ : Type) where
  world : σ
  history : List (Called E ρ)

structure Thread (E : Effects) (ρ α : Type) where
  request : ρ
  program : Program E α

structure Pool (E : Effects) (σ ρ α : Type) where
  scene : Scene E σ ρ
  threads : List (Thread E ρ α)

inductive PoolEvent (ρ χ : Type)
  | start (request : ρ)
  | advance (thread : ℕ) (choice : χ)

variable {E : Effects} {σ ρ χ α : Type}

namespace Scene

def call (answer : σ → χ → (op : E.Op) → E.Ret op × σ) (scene : Scene E σ ρ) (i : ℕ) (request : ρ)
    (choice : χ) (op : E.Op) : E.Ret op × Scene E σ ρ :=
  let (result, world) := answer scene.world choice op
  (result, ⟨world, ⟨i, request, op, result⟩ :: scene.history⟩)

variable (answer : σ → χ → (op : E.Op) → E.Ret op × σ) (scene : Scene E σ ρ) (i : ℕ) (request : ρ)
  (choice : χ) (op : E.Op)

theorem call_world : (scene.call answer i request choice op).2.world = (answer scene.world choice op).2 :=
  rfl

theorem call_history : (scene.call answer i request choice op).2.history
    = ⟨i, request, op, (scene.call answer i request choice op).1⟩ :: scene.history := rfl

def own (scene : Scene E σ ρ) (i : ℕ) : List (Called E ρ) :=
  scene.history.filter fun called => called.thread = i

theorem mem_of_own {scene : Scene E σ ρ} {i : ℕ} {called : Called E ρ} (h : called ∈ scene.own i) :
    called ∈ scene.history := (List.mem_filter.1 h).1

theorem mem_own {scene : Scene E σ ρ} {called : Called E ρ} :
    called ∈ scene.own called.thread ↔ called ∈ scene.history := by
  simp [own]

theorem own_call_self : (scene.call answer i request choice op).2.own i
    = ⟨i, request, op, (scene.call answer i request choice op).1⟩ :: scene.own i := by
  rw [own, call_history, List.filter_cons_of_pos (by simp), own]

theorem own_call_of_ne {j : ℕ} (h : j ≠ i) :
    (scene.call answer i request choice op).2.own j = scene.own j := by
  rw [own, call_history, List.filter_cons_of_neg (by simpa using Ne.symm h), own]

end Scene

namespace Pool

def start (world : σ) : Pool E σ ρ α := ⟨⟨world, []⟩, []⟩

variable (handler : ρ → Program E α) (answer : σ → χ → (op : E.Op) → E.Ret op × σ)

def step (pool : Pool E σ ρ α) : PoolEvent ρ χ → Pool E σ ρ α
  | .start request => ⟨pool.scene, pool.threads ++ [⟨request, handler request⟩]⟩
  | .advance i choice =>
    match pool.threads[i]? with
    | some ⟨request, .call op next⟩ =>
      let (result, scene) := pool.scene.call answer i request choice op
      ⟨scene, pool.threads.set i ⟨request, next result⟩⟩
    | _ => pool

def Admits (C : Scene E σ ρ → ℕ → ρ → E.Op → χ → Prop) (pool : Pool E σ ρ α) : PoolEvent ρ χ → Prop
  | .start _ => True
  | .advance i choice => ∀ request op next, pool.threads[i]? = some ⟨request, .call op next⟩ →
      C pool.scene i request op choice

def Finished (pool : Pool E σ ρ α) (i : ℕ) (request : ρ) (result : α) : Prop :=
  pool.threads[i]? = some ⟨request, .done result⟩

theorem step_advance {pool : Pool E σ ρ α} {i : ℕ} {request : ρ} {op : E.Op}
    {next : E.Ret op → Program E α} (h : pool.threads[i]? = some ⟨request, .call op next⟩) (choice : χ) :
    step handler answer pool (.advance i choice) =
      ⟨(pool.scene.call answer i request choice op).2,
        pool.threads.set i ⟨request, next (pool.scene.call answer i request choice op).1⟩⟩ := by
  simp only [step, h]

theorem step_cases (pool : Pool E σ ρ α) (e : PoolEvent ρ χ) :
    (∃ request, e = .start request ∧ step handler answer pool e
      = ⟨pool.scene, pool.threads ++ [⟨request, handler request⟩]⟩) ∨
    (∃ i choice request op next, e = .advance i choice ∧
      pool.threads[i]? = some ⟨request, .call op next⟩ ∧ step handler answer pool e
        = ⟨(pool.scene.call answer i request choice op).2,
          pool.threads.set i ⟨request, next (pool.scene.call answer i request choice op).1⟩⟩) ∨
    step handler answer pool e = pool := by
  cases e with
  | start request => exact .inl ⟨request, rfl, rfl⟩
  | advance i choice =>
    right
    cases h : pool.threads[i]? with
    | none =>
      right
      simp only [step, h]
    | some thread =>
      obtain ⟨request, program⟩ := thread
      cases program with
      | done result =>
        right
        simp only [step, h]
      | call op next =>
        left
        exact ⟨i, choice, request, op, next, rfl, h, step_advance handler answer h choice⟩

end Pool

/-- How the calls of one thread are answered where an invariant holds. -/
def Answered (answer : σ → χ → (op : E.Op) → E.Ret op × σ)
    (C : Scene E σ ρ → ℕ → ρ → E.Op → χ → Prop) (I : Scene E σ ρ → Prop) (i : ℕ) (request : ρ)
    (s : Scene E σ ρ) (op : E.Op) (result : E.Ret op) (t : Scene E σ ρ) : Prop :=
  I s ∧ ∃ choice, C s i request op choice ∧ s.call answer i request choice op = (result, t)

/-- Each thread stays within what the others rely on. It starts without calls of its own. -/
structure RelyGuarantee (handler : ρ → Program E α) (answer : σ → χ → (op : E.Op) → E.Ret op × σ)
    (C : Scene E σ ρ → ℕ → ρ → E.Op → χ → Prop) (I : Scene E σ ρ → Prop)
    (rely guar : ℕ → Scene E σ ρ → Scene E σ ρ → Prop) (post : ℕ → ρ → α → Scene E σ ρ → Prop) :
    Prop where
  starts : ∀ i request s, I s → s.own i = [] → (handler request).Ensures (Answered answer C I i request)
    (rely i) (guar i) (post i request) s
  keeps : ∀ i s t, I s → guar i s t → I t
  others : ∀ i j s t, i ≠ j → I s → guar i s t → rely j s t
  refl : ∀ i s, rely i s s
  trans : ∀ i s t u, rely i s t → rely i t u → rely i s u
  stable : ∀ i request result s t, post i request result s → rely i s t → post i request result t

namespace Program

theorem Ensures.after {Step : σ → (op : E.Op) → E.Ret op → σ → Prop} {rely guar : σ → σ → Prop}
    {post : α → σ → Prop} {p : Program E α} {s t : σ} (h : Ensures Step rely guar post p s)
    (htrans : ∀ s t u, rely s t → rely t u → rely s u)
    (hstable : ∀ a s t, post a s → rely s t → post a t) (hst : rely s t) :
    Ensures Step rely guar post p t := by
  cases h with
  | done h => exact .done (hstable _ _ _ h hst)
  | call hguar hnext =>
    refine .call ?_ ?_
    · exact fun u hu => hguar u (htrans _ _ _ hst hu)
    · exact fun u hu => hnext u (htrans _ _ _ hst hu)

end Program

namespace RelyGuarantee

variable {handler : ρ → Program E α} {answer : σ → χ → (op : E.Op) → E.Ret op × σ}
  {C : Scene E σ ρ → ℕ → ρ → E.Op → χ → Prop} {I : Scene E σ ρ → Prop}
  {rely guar : ℕ → Scene E σ ρ → Scene E σ ρ → Prop} {post : ℕ → ρ → α → Scene E σ ρ → Prop}

structure Respected (answer : σ → χ → (op : E.Op) → E.Ret op × σ)
    (C : Scene E σ ρ → ℕ → ρ → E.Op → χ → Prop) (I : Scene E σ ρ → Prop)
    (rely guar : ℕ → Scene E σ ρ → Scene E σ ρ → Prop) (post : ℕ → ρ → α → Scene E σ ρ → Prop)
    (pool : Pool E σ ρ α) : Prop where
  invariant : I pool.scene
  threads : ∀ called ∈ pool.scene.history, called.thread < pool.threads.length
  ensures : ∀ (i : ℕ) (thread : Thread E ρ α), pool.threads[i]? = some thread →
    thread.program.Ensures (Answered answer C I i thread.request) (rely i) (guar i)
      (post i thread.request) pool.scene

theorem respected_step (h : RelyGuarantee handler answer C I rely guar post) {pool : Pool E σ ρ α}
    {e : PoolEvent ρ χ} (hpool : Respected answer C I rely guar post pool) (he : pool.Admits C e) :
    Respected answer C I rely guar post (Pool.step handler answer pool e) := by
  obtain ⟨hinv, hcalled, hthreads⟩ := hpool
  rcases Pool.step_cases handler answer pool e with
    ⟨request, rfl, hstep⟩ | ⟨i, choice, request, op, next, rfl, hi, hstep⟩ | hstep
  · rw [hstep]
    refine ⟨hinv, ?_, ?_⟩
    · intro called hmem
      rw [List.length_append]
      exact Nat.lt_add_right _ (hcalled called hmem)
    · intro j thread hj
      by_cases hlt : j < pool.threads.length
      · rw [List.getElem?_append_left hlt] at hj
        exact hthreads j thread hj
      · rw [List.getElem?_append_right (Nat.le_of_not_lt hlt)] at hj
        obtain rfl := List.mem_singleton.1 (List.mem_of_getElem? hj)
        apply h.starts j request pool.scene hinv
        rw [Scene.own, List.filter_eq_nil_iff]
        intro called hmem
        have := hcalled called hmem
        simp only [decide_eq_true_eq]
        omega
  · have hensures := hthreads i _ hi
    have hlt := (List.getElem?_eq_some_iff.1 hi).1
    have hanswered : Answered answer C I i request pool.scene op
        (pool.scene.call answer i request choice op).1 (pool.scene.call answer i request choice op).2 :=
      ⟨hinv, choice, he request op next hi, rfl⟩
    have hboth : guar i pool.scene (pool.scene.call answer i request choice op).2 ∧
        (next (pool.scene.call answer i request choice op).1).Ensures (Answered answer C I i request)
          (rely i) (guar i) (post i request) (pool.scene.call answer i request choice op).2 := by
      cases hensures with
      | call hguar hnext =>
        exact ⟨hguar _ (h.refl i _) _ _ hanswered, hnext _ (h.refl i _) _ _ hanswered⟩
    obtain ⟨hguar, hnext⟩ := hboth
    rw [hstep]
    refine ⟨h.keeps i _ _ hinv hguar, ?_, ?_⟩
    · intro called hmem
      rw [List.length_set]
      rcases List.mem_cons.1 hmem with rfl | hmem
      · exact hlt
      · exact hcalled called hmem
    · intro j thread hj
      by_cases hji : j = i
      · subst hji
        rw [List.getElem?_set_self hlt] at hj
        obtain rfl := Option.some.inj hj
        exact hnext
      · rw [List.getElem?_set_ne (Ne.symm hji)] at hj
        exact (hthreads j thread hj).after (h.trans j) (h.stable j thread.request)
          (h.others i j _ _ (Ne.symm hji) hinv hguar)
  · rw [hstep]
    exact ⟨hinv, hcalled, hthreads⟩

open Executions in
/-- In every run whose calls meet the condition, the invariant holds and what a thread
    has come to is what its request promised. -/
theorem run (h : RelyGuarantee handler answer C I rely guar post) {world : σ} (hworld : I ⟨world, []⟩)
    {events : List (PoolEvent ρ χ)}
    (ha : Admitted (Pool.step handler answer) (Pool.Admits C) (.start world) events) :
    I (run (Pool.step handler answer) (.start world) events).scene ∧
      ∀ i request result, (run (Pool.step handler answer) (.start world) events).Finished i request
        result → post i request result (run (Pool.step handler answer) (.start world) events).scene := by
  have hstart : Respected answer C I rely guar post (Pool.start world) :=
    ⟨hworld, (fun _ hmem => nomatch hmem), (fun _ _ hi => nomatch hi)⟩
  have hrun := run_invariant (Respected answer C I rely guar post) (Pool.Admits C)
    (fun pool e hpool he => h.respected_step hpool he) (.start world) events hstart ha
  refine ⟨hrun.invariant, ?_⟩
  intro i request result hfinished
  cases hrun.ensures i _ hfinished with
  | done hpost => exact hpost

end RelyGuarantee
end JsrProxy
