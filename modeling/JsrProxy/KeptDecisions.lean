import JsrProxy.DecidedGates
import JsrProxy.Deployments

set_option autoImplicit false

/-!
# Kept decisions

Any number of objects that keep decisions, each for itself, while their handlers
interleave. A decision that a handler finds was stored by a handler of the same object,
which had made it of an answer of GitHub, so a grant has such an answer behind it.
-/
namespace JsrProxy
open ObjectHandlers

namespace World

theorem perform_readDecision {world : World} {choice : Choice} {key : Str} {record : AdmissionRecord}
    (h : (world.perform choice (.readDecision key)).1 = .ok (some record)) :
    world.decisions key = some record := by
  unfold perform at h
  cases hfault : choice.fault with
  | some message =>
    rw [hfault] at h
    cases h
  | none =>
    rw [hfault] at h
    exact Except.ok.inj h

theorem perform_decisions {world : World} {choice : Choice} {call : ObjectCall} {key : Str}
    {record : AdmissionRecord} (h : (world.perform choice call).2.decisions key = some record) :
    world.decisions key = some record ∨ call = .writeDecision key record := by
  cases call with
  | fetch | container | bucket => exact .inl h
  | readDecision | readSnapshot | writeSnapshot =>
    unfold perform at h
    cases hfault : choice.fault with
    | some message =>
      rw [hfault] at h
      exact .inl h
    | none =>
      rw [hfault] at h
      exact .inl h
  | writeDecision name stored =>
    unfold perform at h
    cases hfault : choice.fault with
    | some message =>
      rw [hfault] at h
      exact .inl h
    | none =>
      rw [hfault] at h
      by_cases hname : key = name
      · subst hname
        dsimp only at h
        rw [Function.update_self] at h
        obtain rfl := Option.some.inj h
        exact .inr rfl
      · dsimp only at h
        rw [Function.update_of_ne hname] at h
        exact .inl h

end World

section
variable {κ σ ρ : Type}

/-- Each object answers for itself, by its own clock. -/
structure Objects [DecidableEq κ]
    (answer : σ → Choice → (op : (objectCalls.tagged κ).Op) → (objectCalls.tagged κ).Ret op × σ)
    (object : σ → κ → World) : Prop where
  result : ∀ s choice op, (answer s choice op).1 = (World.answer (object s op.1) choice op.2).1
  decisions : ∀ s choice op key, (object (answer s choice op).2 key).decisions =
    if key = op.1 then (World.answer (object s op.1) choice op.2).2.decisions else (object s key).decisions
  clock : ∀ s choice op key, (object (answer s choice op).2 key).clock =
    if key = op.1 then choice.time else (object s key).clock

theorem Admissions.objects : Objects Admissions.answer Admissions.object where
  result _ _ _ := rfl
  clock admissions choice op key := by
    dsimp only [Admissions.answer, Admissions.object]
    rw [Function.update_apply]
    rfl
  decisions admissions choice op key := by
    dsimp only [Admissions.answer, Admissions.object]
    rw [Function.update_apply]

theorem Fleet.objects_answer : Objects Fleet.answer Fleet.object where
  result _ _ _ := rfl
  clock fleet choice op key := by
    dsimp only [Fleet.answer, Fleet.update, Fleet.object]
    rw [Function.update_apply]
    rfl
  decisions fleet choice op key := by
    dsimp only [Fleet.answer, Fleet.update, Fleet.object]
    rw [Function.update_apply]

def Called.within (called : Called (objectCalls.tagged κ) ρ) : Exchange objectCalls :=
  Program.untag ⟨called.op, called.answer⟩

/-- A call comes no earlier than those before it in the same object, and finds only a
    decision that one of them has stored. -/
def FoundStored (earlier : List (Called (objectCalls.tagged κ) ρ)) (called : Called (objectCalls.tagged κ) ρ) :
    Prop :=
  (∀ before ∈ earlier, before.op.1 = called.op.1 → before.within.answer.2 ≤ called.within.answer.2) ∧
  ∀ gate record now, called.within = Gate.readExchange gate (.ok (some record)) now →
    ∃ before ∈ earlier, before.op = (called.op.1, (.writeDecision gate.key record : ObjectCall))

def Forward (object : σ → κ → World) (s : Scene (objectCalls.tagged κ) σ ρ) (_ : ℕ) (_ : ρ)
    (op : (objectCalls.tagged κ).Op) (choice : Choice) : Prop := (object s.world op.1).clock ≤ choice.time

structure KeepsDecisions (object : σ → κ → World) (s : Scene (objectCalls.tagged κ) σ ρ) : Prop where
  past : ∀ called ∈ s.history, called.within.answer.2 ≤ (object s.world called.op.1).clock
  stored : ∀ key name record, (object s.world key).decisions name = some record →
    ∃ called ∈ s.history, called.op = (key, (.writeDecision name record : ObjectCall))

variable {answer : σ → Choice → (op : (objectCalls.tagged κ).Op) → (objectCalls.tagged κ).Ret op × σ}
  {object : σ → κ → World}

theorem KeepsDecisions.call [DecidableEq κ] (hobjects : Objects answer object) {s : Scene (objectCalls.tagged κ) σ ρ}
    (h : KeepsDecisions object s) {i : ℕ} {request : ρ} {op : (objectCalls.tagged κ).Op} {choice : Choice}
    (hforward : Forward object s i request op choice) :
    KeepsDecisions object (s.call answer i request choice op).2 ∧
      FoundStored s.history ⟨i, request, op, (s.call answer i request choice op).1⟩ := by
  have hresult : (s.call answer i request choice op).1 = (World.answer (object s.world op.1) choice op.2).1 :=
    hobjects.result s.world choice op
  have htime : (s.call answer i request choice op).1.2 = choice.time := by
    rw [hresult]
    rfl
  have hpast : ∀ before ∈ s.history, before.op.1 = op.1 → before.within.answer.2 ≤ choice.time := by
    intro before hbefore hsame
    have hle := h.past before hbefore
    rw [hsame] at hle
    exact hle.trans hforward
  refine ⟨⟨?_, ?_⟩, ?_, ?_⟩
  · intro called hcalled
    rw [Scene.call_world, hobjects.clock]
    rcases List.mem_cons.1 hcalled with rfl | hcalled
    · exact le_of_eq_of_le htime (le_of_eq (if_pos rfl).symm)
    · split_ifs with hsame
      · exact hpast called hcalled hsame
      · exact h.past called hcalled
  · intro key name record hrecord
    rw [Scene.call_world, hobjects.decisions] at hrecord
    rw [Scene.call_history]
    have hbefore : (object s.world key).decisions name = some record → ∃ called ∈
        (⟨i, request, op, (s.call answer i request choice op).1⟩ : Called (objectCalls.tagged κ) ρ) :: s.history,
          called.op = (key, (.writeDecision name record : ObjectCall)) := by
      intro hstored
      obtain ⟨called, hcalled, hop⟩ := h.stored key name record hstored
      exact ⟨called, List.mem_cons_of_mem _ hcalled, hop⟩
    split_ifs at hrecord with hkey
    · subst hkey
      rcases World.perform_decisions hrecord with hstored | hwrites
      · exact hbefore hstored
      · exact ⟨_, List.mem_cons_self, Prod.ext rfl hwrites⟩
    · exact hbefore hrecord
  · intro before hbefore hsame
    exact (hpast before hbefore hsame).trans_eq htime.symm
  · intro gate record now hread
    obtain ⟨key, call⟩ := op
    obtain rfl : call = .readDecision gate.key := congrArg Exchange.op hread
    have hanswer := eq_of_heq (Exchange.mk.inj hread).2
    dsimp only at hanswer
    rw [hresult] at hanswer
    have hfound := World.perform_readDecision (congrArg Prod.fst hanswer)
    exact h.stored key gate.key record hfound

abbrev GatePool (κ σ ρ : Type) := Pool (objectCalls.tagged κ) σ ρ (Reply ObjectBody)

/-- Each handler calls one object, stores only what it decided, and returns a grant only as
    its gate allows. -/
structure Gated (env : ObjectEnv) (key : ρ → κ) (asks : ρ → ObjectRequest) (pool : GatePool κ σ ρ) : Prop where
  accounted : pool.Accounted
    (fun r past (op : κ × objectCalls.Op) => op.1 = key r ∧ StoresDecided env (asks r) (past.map Program.untag) op.2)
    (fun r past reply => ReturnsDecided env (asks r) (past.map Program.untag) reply)
  found : Recorded FoundStored pool.scene.history

def calledObject (pool : GatePool κ σ ρ) (i : ℕ) : Option κ :=
  match pool.threads[i]? with
  | some ⟨_, .call op _⟩ => some op.1
  | _ => none

theorem calledObject_eq {pool : GatePool κ σ ρ} {i : ℕ} {request : ρ} {op : (objectCalls.tagged κ).Op}
    {next : (objectCalls.tagged κ).Ret op → Program (objectCalls.tagged κ) (Reply ObjectBody)}
    (h : pool.threads[i]? = some ⟨request, .call op next⟩) : calledObject pool i = some op.1 := by
  rw [calledObject, h]

def finishedAt (pool : GatePool κ σ ρ) (i : ℕ) : Option ℤ :=
  (ownExchanges pool.scene.history i).head?.map fun exchange => exchange.answer.2

/-- An answer of GitHub that a grant rests on. It was asked for in the same object for a gate
    with the same key, by the handler itself or before the grant ran out. -/
structure RestsOn (env : ObjectEnv) (key : ρ → κ) (asks : ρ → ObjectRequest) (pool : GatePool κ σ ρ) (i : ℕ)
    (place : κ) (name : Str) (asker : ρ) (gate : Gate) (github : Fetched) (received : ℤ)
    (record : AdmissionRecord) : Prop where
  sameObject : key asker = place
  asks : gateOf env (asks asker) = some gate
  sameKey : gate.key = name
  asked : ∃ request, Auth.githubRequest gate.path gate.pat = .ok request ∧ ∃ called ∈ pool.scene.history,
    called.request = asker ∧ called.within = Gate.fetchExchange request (.ok github) received ∧
      (called.thread = i ∨ ∃ now, finishedAt pool i = some now ∧ received ≤ now ∧ now < record.expiresAt)
  decided : ∃ decision, Auth.classifyGitHubResponse github received = .decision decision ∧
    gate.made github decision = .ok record
  granted : record.granted = true

theorem ownExchanges_untag {history : List (Called (objectCalls.tagged κ) ρ)} {i : ℕ}
    {exchange : Exchange objectCalls} (h : exchange ∈ (ownExchanges history i).map Program.untag) :
    ∃ called ∈ history, called.thread = i ∧ called.within = exchange := by
  obtain ⟨tagged, htagged, rfl⟩ := List.mem_map.1 h
  obtain ⟨called, hcalled, hthread, rfl⟩ := mem_of_ownExchanges htagged
  exact ⟨called, hcalled, hthread, rfl⟩

variable {env : ObjectEnv} {key : ρ → κ} {asks : ρ → ObjectRequest} {pool : GatePool κ σ ρ}

/-- A finished handler's grant rests on an answer of GitHub. -/
theorem Gated.restsOn (h : Gated env key asks pool) {i : ℕ} {r : ρ} {gate : Gate} {reply : Reply ObjectBody}
    (hgate : gateOf env (asks r) = some gate) (hfinished : pool.Finished i r reply) {number : ℚ → Str}
    {response : Fetched} (hfetched : ObjectTexts.fetched number reply = .ok response)
    (hgranting : Granting response) :
    ∃ asker gate' github received record,
      RestsOn env key asks pool i (key r) gate.key asker gate' github received record := by
  have hreturns := h.accounted.finished hfinished gate hgate
  generalize hown : (ownExchanges pool.scene.history i).map Program.untag = own at hreturns
  cases hreturns with
  | refused hrefused =>
    have hok := hrefused number response hfetched
    rw [hgranting.1] at hok
    cases hok
  | @decided _ record hdecides =>
    obtain ⟨request, github, received, decision, hrequest, hfetch, hclass, hmade⟩ := hdecides
    have hgranted : record.granted = true :=
      Except.ok.inj ((ObjectTexts.isGranted_decision hfetched).symm.trans hgranting.2)
    rw [← hown] at hfetch
    obtain ⟨called, hcalled, hthread, hwithin⟩ := ownExchanges_untag hfetch
    obtain ⟨thread, hi, hr⟩ := h.accounted.owned called hcalled
    rw [hthread, hfinished] at hi
    obtain rfl := Option.some.inj hi
    exact ⟨r, gate, github, received, record, rfl, hgate, rfl,
      ⟨request, hrequest, called, hcalled, hr.symm, hwithin, .inl hthread⟩, ⟨decision, hclass, hmade⟩, hgranted⟩
  | @found record now hbefore =>
    have hgranted : record.granted = true :=
      Except.ok.inj ((ObjectTexts.isGranted_decision hfetched).symm.trans hgranting.2)
    obtain ⟨exchange, past, hcons, hread, -⟩ := List.map_eq_cons_iff.1 hown
    obtain ⟨later, called, earlier, hhistory, hthread, rfl, -⟩ := ownExchanges_cons hcons
    have hmem : called ∈ pool.scene.history := by
      rw [hhistory]
      exact List.mem_append_right _ List.mem_cons_self
    obtain ⟨thread, hi, hr⟩ := h.accounted.owned called hmem
    rw [hthread, hfinished] at hi
    obtain rfl := Option.some.inj hi
    -- what the handler has found, a handler of the same object had stored
    have hfound := h.found
    have hcalls := h.accounted.calls
    rw [hhistory] at hfound hcalls
    obtain ⟨hpast, hstored⟩ := hfound.split
    obtain ⟨hplace, -⟩ := hcalls.split
    obtain ⟨writer, hwriter, hop⟩ := hstored gate record now hread
    have hcalls' : Recorded _ (called :: earlier) := hcalls.drop
    obtain ⟨between, before, hsplit, hplace', hstores⟩ := Recorded.of_mem hcalls'.2 hwriter
    have hop' : writer.op.2 = .writeDecision gate.key record := congrArg Prod.snd hop
    obtain ⟨gate', hgate', hkey, request, github, received, decision, hrequest, hfetch, hclass, hmade⟩ :=
      hstores gate.key record hop'
    obtain ⟨fetch, hin, hthread', hwithin⟩ := ownExchanges_untag hfetch
    have hearlier : fetch ∈ earlier := by
      rw [hsplit]
      exact List.mem_append_right _ (List.mem_cons_of_mem _ hin)
    have hall : ∀ found ∈ earlier, found ∈ pool.scene.history := by
      intro found hfound
      rw [hhistory]
      exact List.mem_append_right _ (List.mem_cons_of_mem _ hfound)
    have hasker := h.accounted.request_eq (hall _ hwriter) (hall _ hearlier) hthread'
    have hfinishedAt : finishedAt pool called.thread = some now := by
      rw [finishedAt, hthread, hcons]
      exact congrArg some (congrArg (fun e : Exchange objectCalls => e.answer.2) hread)
    refine ⟨writer.request, gate', github, received, record, ?_, hgate', hkey.symm,
      ⟨request, hrequest, fetch, hall _ hearlier, hasker, hwithin, .inr ⟨now, ?_, ?_, hbefore⟩⟩,
      ⟨decision, hclass, hmade⟩, hgranted⟩
    · rw [← hplace', hop]
      exact hplace.trans (congrArg key hr.symm)
    · rw [← hthread]
      exact hfinishedAt
    · obtain ⟨-, -, -, hplaced, -⟩ := h.accounted.of_mem (hall _ hearlier)
      have hsame : fetch.op.1 = called.op.1 := by
        rw [hplaced, hasker, ← hplace', hop]
      have hle := hpast fetch hearlier hsame
      rw [hwithin] at hle
      exact hle.trans_eq (congrArg (fun e : Exchange objectCalls => e.answer.2) hread)

open Executions in
theorem gated_reached [DecidableEq κ] (hobjects : Objects answer object)
    {handler : ρ → Program (objectCalls.tagged κ) (Reply ObjectBody)}
    (hhandler : ∀ r, (handler r).Justified
      (fun past (op : κ × objectCalls.Op) => op.1 = key r ∧ StoresDecided env (asks r) (past.map Program.untag) op.2)
      (fun past reply => ReturnsDecided env (asks r) (past.map Program.untag) reply) [])
    {world : σ} (hworld : ∀ key name, (object world key).decisions name = none)
    (hreached : Reached (Pool.step handler answer) (Pool.Admits (Forward object)) (.start world) pool) :
    Gated env key asks pool := by
  obtain ⟨events, rfl, ha⟩ := hreached
  refine ⟨Pool.accounted_run hhandler world events, ?_⟩
  refine (Pool.recorded_run (KeepsDecisions object) FoundStored ?_ ⟨nofun, ?_⟩ ha).2
  · intro s i request op choice hkept hforward
    exact hkept.call hobjects hforward
  · intro key name record hrecord
    rw [hworld] at hrecord
    cases hrecord

end

theorem justified_admission (env : ObjectEnv) (r : AdmissionRequest) : (Admissions.handle env r).Justified
    (fun past (op : Str × objectCalls.Op) =>
      op.1 = r.fingerprint ∧ StoresDecided env r.request (past.map Program.untag) op.2)
    (fun past reply => ReturnsDecided env r.request (past.map Program.untag) reply) [] := by
  obtain ⟨fingerprint, request⟩ := r
  unfold Admissions.handle
  dsimp only
  split
  · exact (justified_gates env (.check _)).tag rfl
  · refine .done ?_
    intro gate _
    apply Gate.Returns.refused
    intro number response hfetched
    obtain rfl := Except.ok.inj hfetched
    rfl

theorem justified_package (env : ObjectEnv) (r : FleetRequest) : (Fleet.handle env r).Justified
    (fun past (op : PackageName × objectCalls.Op) =>
      op.1 = r.package ∧ StoresDecided env r.request (past.map Program.untag) op.2)
    (fun past reply => ReturnsDecided env r.request (past.map Program.untag) reply) [] :=
  (justified_gates env r.request).tag rfl

end JsrProxy
