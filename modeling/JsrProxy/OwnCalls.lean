import JsrProxy.Interleavings

set_option autoImplicit false

/-!
# Own calls

What a program's calls and its result owe to the calls that it made itself. This is shown
of the program alone, whatever it is answered, and holds however programs interleave.
-/
namespace JsrProxy

variable {E : Effects} {σ ρ χ α β : Type}

namespace Program

/-- Each call meets `C` and the result `Q`, given the program's earlier calls, the latest
    first. -/
inductive Justified (C : List (Exchange E) → E.Op → Prop) (Q : List (Exchange E) → α → Prop) :
    Program E α → List (Exchange E) → Prop
  | done {result : α} {past : List (Exchange E)} (h : Q past result) : Justified C Q (.done result) past
  | call {op : E.Op} {next : E.Ret op → Program E α} {past : List (Exchange E)} (hop : C past op)
      (hnext : ∀ answer, Justified C Q (next answer) (⟨op, answer⟩ :: past)) :
    Justified C Q (.call op next) past

variable {C : List (Exchange E) → E.Op → Prop} {Q : List (Exchange E) → α → Prop}

theorem Justified.mono {C' : List (Exchange E) → E.Op → Prop} {Q' : List (Exchange E) → α → Prop}
    {p : Program E α} {past : List (Exchange E)} (h : p.Justified C Q past)
    (hC : ∀ past op, C past op → C' past op) (hQ : ∀ past result, Q past result → Q' past result) :
    p.Justified C' Q' past := by
  induction h with
  | done h => exact .done (hQ _ _ h)
  | call hop _ ih => exact .call (hC _ _ hop) ih

theorem Asks.mono {D D' : E.Op → Prop} {p : Program E α} (h : p.Asks D) (hD : ∀ op, D op → D' op) :
    p.Asks D' := by
  induction h with
  | done result => exact .done result
  | call hop _ ih => exact .call (hD _ hop) ih

theorem Asks.justified {D : E.Op → Prop} {p : Program E α} (h : p.Asks D) (past : List (Exchange E)) :
    p.Justified (fun _ op => D op) (fun _ _ => True) past := by
  induction h generalizing past with
  | done result => exact .done trivial
  | call hop _ ih => exact .call hop fun answer => ih answer _

def untag {κ : Type} (exchange : Exchange (E.tagged κ)) : Exchange E := ⟨exchange.op.2, exchange.answer⟩

theorem Justified.tag {κ : Type} {key : κ} {p : Program E α} {past : List (Exchange (E.tagged κ))}
    {own : List (Exchange E)} (h : p.Justified C Q own) (hpast : past.map untag = own) :
    (p.tag key).Justified (fun past (op : κ × E.Op) => op.1 = key ∧ C (past.map untag) op.2)
      (fun past result => Q (past.map untag) result) past := by
  induction h generalizing past with
  | done h =>
    subst hpast
    exact .done h
  | call hop _ ih =>
    subst hpast
    refine .call ⟨rfl, hop⟩ ?_
    exact fun answer => ih answer (by rw [List.map_cons]; rfl)

end Program

def ownExchanges (history : List (Called E ρ)) (i : ℕ) : List (Exchange E) :=
  (history.filter fun called => called.thread = i).map fun called => ⟨called.op, called.answer⟩

theorem ownExchanges_self (history : List (Called E ρ)) (called : Called E ρ) :
    ownExchanges (called :: history) called.thread
      = ⟨called.op, called.answer⟩ :: ownExchanges history called.thread := by
  rw [ownExchanges, List.filter_cons_of_pos (by simp), List.map_cons, ownExchanges]

theorem ownExchanges_of_ne (history : List (Called E ρ)) {called : Called E ρ} {i : ℕ}
    (h : called.thread ≠ i) : ownExchanges (called :: history) i = ownExchanges history i := by
  rw [ownExchanges, List.filter_cons_of_neg (by simpa using h), ownExchanges]

theorem ownExchanges_append (later earlier : List (Called E ρ)) (i : ℕ) :
    ownExchanges (later ++ earlier) i = ownExchanges later i ++ ownExchanges earlier i := by
  rw [ownExchanges, List.filter_append, List.map_append, ownExchanges, ownExchanges]

theorem ownExchanges_cons {history : List (Called E ρ)} {i : ℕ} {exchange : Exchange E}
    {past : List (Exchange E)} (h : ownExchanges history i = exchange :: past) :
    ∃ later called earlier, history = later ++ called :: earlier ∧ called.thread = i ∧
      (⟨called.op, called.answer⟩ : Exchange E) = exchange ∧ ownExchanges earlier i = past ∧
      ∀ other ∈ later, other.thread ≠ i := by
  unfold ownExchanges at h
  obtain ⟨called, rest, hfilter, hcalled, hrest⟩ := List.map_eq_cons_iff.1 h
  obtain ⟨later, earlier, hsplit, hlater, hthread, hearlier⟩ := List.filter_eq_cons_iff.1 hfilter
  refine ⟨later, called, earlier, hsplit, by simpa using hthread, hcalled, ?_, by simpa using hlater⟩
  rw [ownExchanges, hearlier, hrest]

theorem mem_ownExchanges {history : List (Called E ρ)} {called : Called E ρ} (h : called ∈ history) :
    ⟨called.op, called.answer⟩ ∈ ownExchanges history called.thread :=
  List.mem_map.2 ⟨called, List.mem_filter.2 ⟨h, by simp⟩, rfl⟩

theorem mem_of_ownExchanges {history : List (Called E ρ)} {i : ℕ} {exchange : Exchange E}
    (h : exchange ∈ ownExchanges history i) : ∃ called ∈ history, called.thread = i ∧
      (⟨called.op, called.answer⟩ : Exchange E) = exchange := by
  obtain ⟨called, hcalled, he⟩ := List.mem_map.1 h
  obtain ⟨hmem, hthread⟩ := List.mem_filter.1 hcalled
  exact ⟨called, hmem, by simpa using hthread, he⟩

def Recorded (D : List (Called E ρ) → Called E ρ → Prop) : List (Called E ρ) → Prop
  | [] => True
  | called :: earlier => D earlier called ∧ Recorded D earlier

theorem Recorded.drop {D : List (Called E ρ) → Called E ρ → Prop} {later earlier : List (Called E ρ)}
    (h : Recorded D (later ++ earlier)) : Recorded D earlier := by
  induction later with
  | nil => exact h
  | cons _ later ih => exact ih h.2

theorem Recorded.split {D : List (Called E ρ) → Called E ρ → Prop} {later earlier : List (Called E ρ)}
    {called : Called E ρ} (h : Recorded D (later ++ called :: earlier)) : D earlier called := h.drop.1

theorem Recorded.of_mem {D : List (Called E ρ) → Called E ρ → Prop} {history : List (Called E ρ)}
    {called : Called E ρ} (h : Recorded D history) (hmem : called ∈ history) :
    ∃ later earlier, history = later ++ called :: earlier ∧ D earlier called := by
  obtain ⟨later, earlier, rfl⟩ := List.append_of_mem hmem
  exact ⟨later, earlier, rfl, h.split⟩

namespace Pool

variable {handler : ρ → Program E α} {answer : σ → χ → (op : E.Op) → E.Ret op × σ}

/-- Threads owe what their requests do, and so did their calls. -/
structure Accounted (C : ρ → List (Exchange E) → E.Op → Prop) (Q : ρ → List (Exchange E) → α → Prop)
    (pool : Pool E σ ρ α) : Prop where
  threads : ∀ (i : ℕ) (thread : Thread E ρ α), pool.threads[i]? = some thread →
    thread.program.Justified (C thread.request) (Q thread.request) (ownExchanges pool.scene.history i)
  calls : Recorded (fun earlier called => C called.request (ownExchanges earlier called.thread) called.op)
    pool.scene.history
  owned : ∀ called ∈ pool.scene.history, ∃ thread, pool.threads[called.thread]? = some thread ∧
    thread.request = called.request

variable {C : ρ → List (Exchange E) → E.Op → Prop} {Q : ρ → List (Exchange E) → α → Prop}

theorem accounted_start (world : σ) : Accounted C Q (Pool.start world : Pool E σ ρ α) where
  threads _ _ h := nomatch h
  calls := trivial
  owned _ h := nomatch h

theorem Accounted.step {pool : Pool E σ ρ α} (h : Accounted C Q pool)
    (hhandler : ∀ request, (handler request).Justified (C request) (Q request) []) (e : PoolEvent ρ χ) :
    Accounted C Q (step handler answer pool e) := by
  rcases step_cases handler answer pool e with
    ⟨request, -, hstep⟩ | ⟨i, choice, request, op, next, -, hi, hstep⟩ | hstep
  · rw [hstep]
    refine ⟨?_, h.calls, ?_⟩
    · intro j thread hj
      by_cases hlt : j < pool.threads.length
      · rw [List.getElem?_append_left hlt] at hj
        exact h.threads j thread hj
      · rw [List.getElem?_append_right (Nat.le_of_not_lt hlt)] at hj
        obtain rfl := List.mem_singleton.1 (List.mem_of_getElem? hj)
        -- nobody has made a call under the new thread's number
        have hnone : ownExchanges pool.scene.history j = [] := by
          rw [ownExchanges, List.map_eq_nil_iff, List.filter_eq_nil_iff]
          intro called hcalled
          obtain ⟨thread, hthread, -⟩ := h.owned called hcalled
          have := (List.getElem?_eq_some_iff.1 hthread).1
          simp only [decide_eq_true_eq]
          omega
        rw [hnone]
        exact hhandler request
    · intro called hcalled
      obtain ⟨thread, hthread, hrequest⟩ := h.owned called hcalled
      refine ⟨thread, ?_, hrequest⟩
      rw [List.getElem?_append_left (List.getElem?_eq_some_iff.1 hthread).1]
      exact hthread
  · have hjustified := h.threads i _ hi
    have hlt := (List.getElem?_eq_some_iff.1 hi).1
    cases hjustified with
    | call hop hnext =>
      rw [hstep]
      refine ⟨?_, ⟨hop, h.calls⟩, ?_⟩
      · intro j thread hj
        by_cases hji : j = i
        · subst hji
          rw [List.getElem?_set_self hlt] at hj
          obtain rfl := Option.some.inj hj
          rw [Scene.call_history]
          have hself := ownExchanges_self pool.scene.history
            ⟨j, request, op, (pool.scene.call answer j request choice op).1⟩
          rw [hself]
          exact hnext _
        · rw [List.getElem?_set_ne (Ne.symm hji)] at hj
          rw [Scene.call_history, ownExchanges_of_ne _ (Ne.symm hji)]
          exact h.threads j thread hj
      · intro called hcalled
        have hkept : ∀ thread, pool.threads[called.thread]? = some thread →
            ∃ thread', (pool.threads.set i ⟨request,
              next (pool.scene.call answer i request choice op).1⟩)[called.thread]? = some thread' ∧
              thread'.request = thread.request := by
          intro thread hthread
          by_cases hci : called.thread = i
          · rw [hci] at hthread ⊢
            rw [hi] at hthread
            obtain rfl := Option.some.inj hthread
            exact ⟨_, List.getElem?_set_self hlt, rfl⟩
          · exact ⟨thread, by rw [List.getElem?_set_ne (Ne.symm hci)]; exact hthread, rfl⟩
        rcases List.mem_cons.1 hcalled with rfl | hcalled
        · exact hkept _ hi
        · obtain ⟨thread, hthread, hrequest⟩ := h.owned called hcalled
          obtain ⟨thread', hthread', he⟩ := hkept thread hthread
          exact ⟨thread', hthread', he.trans hrequest⟩
  · rw [hstep]
    exact h

theorem Accounted.request_eq {pool : Pool E σ ρ α} (h : Accounted C Q pool) {called called' : Called E ρ}
    (hcalled : called ∈ pool.scene.history) (hcalled' : called' ∈ pool.scene.history)
    (hthread : called'.thread = called.thread) : called'.request = called.request := by
  obtain ⟨thread, hi, hrequest⟩ := h.owned called hcalled
  obtain ⟨thread', hi', hrequest'⟩ := h.owned called' hcalled'
  rw [hthread, hi] at hi'
  obtain rfl := Option.some.inj hi'
  exact hrequest'.symm.trans hrequest

theorem Accounted.of_mem {pool : Pool E σ ρ α} (h : Accounted C Q pool) {called : Called E ρ}
    (hcalled : called ∈ pool.scene.history) : ∃ later earlier,
      pool.scene.history = later ++ called :: earlier ∧
      C called.request (ownExchanges earlier called.thread) called.op := h.calls.of_mem hcalled

theorem Accounted.mem_requests {pool : Pool E σ ρ α} (h : Accounted C Q pool) {called : Called E ρ}
    (hcalled : called ∈ pool.scene.history) : ∃ thread ∈ pool.threads, thread.request = called.request := by
  obtain ⟨thread, hthread, hrequest⟩ := h.owned called hcalled
  exact ⟨thread, List.mem_of_getElem? hthread, hrequest⟩

open Executions in
theorem accounted_run (hhandler : ∀ request, (handler request).Justified (C request) (Q request) [])
    (world : σ) (events : List (PoolEvent ρ χ)) :
    Accounted C Q (run (Pool.step handler answer) (.start world) events) :=
  run_invariant (Accounted C Q) (fun _ _ => True) (fun _ e h _ => h.step hhandler e) _ _
    (accounted_start world) (admitted_true _ _ _)

/-- What a thread has come to is what its own calls account for. -/
theorem Accounted.finished {pool : Pool E σ ρ α} (h : Accounted C Q pool) {i : ℕ} {request : ρ}
    {result : α} (hfinished : pool.Finished i request result) :
    Q request (ownExchanges pool.scene.history i) result := by
  cases h.threads i _ hfinished with
  | done hresult => exact hresult

open Executions in
/-- What every call keeps of the state, and what holds of every call when it is made. -/
theorem recorded_run {A : Scene E σ ρ → ℕ → ρ → E.Op → χ → Prop} (I : Scene E σ ρ → Prop)
    (D : List (Called E ρ) → Called E ρ → Prop)
    (hcall : ∀ s i request op choice, I s → A s i request op choice →
      I (s.call answer i request choice op).2 ∧
        D s.history ⟨i, request, op, (s.call answer i request choice op).1⟩)
    {world : σ} (hworld : I ⟨world, []⟩) {events : List (PoolEvent ρ χ)}
    (ha : Admitted (Pool.step handler answer) (Pool.Admits A) (.start world) events) :
    I (run (Pool.step handler answer) (.start world) events).scene ∧
      Recorded D (run (Pool.step handler answer) (.start world) events).scene.history := by
  refine run_invariant (fun pool : Pool E σ ρ α => I pool.scene ∧ Recorded D pool.scene.history)
    (Pool.Admits A) ?_ _ _ ⟨hworld, trivial⟩ ha
  rintro pool e ⟨hinv, hrecorded⟩ he
  rcases step_cases handler answer pool e with
    ⟨_, -, hstep⟩ | ⟨i, choice, request, op, next, rfl, hi, hstep⟩ | hstep
  · rw [hstep]
    exact ⟨hinv, hrecorded⟩
  · obtain ⟨hkept, hmade⟩ := hcall pool.scene i request op choice hinv (he request op next hi)
    rw [hstep]
    exact ⟨hkept, hmade, hrecorded⟩
  · rw [hstep]
    exact ⟨hinv, hrecorded⟩

end Pool
end JsrProxy
