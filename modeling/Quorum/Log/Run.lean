import Quorum.Log.Fold

/-!
# Logs reached by a run

A run of calls is a run of single steps: an entry folded in, a notice placed, old lines dropped
(`runCalls_eq_runSteps`).  Whatever the run, every line of the log goes back to an entry that was
folded in or a notice that was placed, and every mutation to a verified entry (`origin`).
-/

namespace Quorum

open Js

/-! ### Steps -/

/-- One change to a channel's working copy. -/
inductive Step
  | entry (item : Item)
  | notice (text : Str) (ts : Number)
  | prune (beforeTs : Number)

def Step.apply (place : Place) (log : ChannelLog) : Step → ChannelLog
  | .entry item => fold1 place log item
  | .notice text ts => addSystemMessage place log text ts
  | .prune beforeTs => (pruneLog log beforeTs).1

def runSteps (place : Place) (steps : List Step) : ChannelLog :=
  steps.foldl (Step.apply place) createChannelLog

/-- The steps of a call: an arrival is the entries its loop gets to. -/
def Call.steps (place : Place) : Call → List Step
  | .arrive a => (reached place a.items).map Step.entry
  | .addSystemMessage text ts => [.notice text ts]
  | .pruneLog beforeTs => [.prune beforeTs]

/-- **A run of calls is a run of steps.** -/
theorem runCalls_eq_runSteps (place : Place) (calls : List Call) :
    runCalls place calls = runSteps place (calls.flatMap (Call.steps place)) := by
  have hcall : ∀ (c : Call) log,
      c.apply place log = (c.steps place).foldl (Step.apply place) log := by
    intro c log
    cases c with
    | arrive a =>
      rw [Call.apply, Call.steps, apply_eq_foldl, List.foldl_map]
      rfl
    | addSystemMessage text ts => rfl
    | pruneLog beforeTs => rfl
  rw [runCalls, runSteps, List.foldl_flatMap]
  congr 1
  funext log c
  exact hcall c log

/-! ### Where lines and mutations come from -/

/-- A line of the log and the step that wrote it. -/
def LineFrom (place : Place) (steps : List Step) (id : Str) (m : Message) : Prop :=
  (∃ item, Step.entry item ∈ steps ∧ contentOf place item = some m ∧ id = m.id) ∨
    ∃ text ts n, Step.notice text ts ∈ steps ∧ id = systemId ts n ∧ m = systemMessage place text ts

/-- A mutation of the log and the step that filed it. -/
def MutationFrom (steps : List Step) (id : Str) (mu : Mutation) : Prop :=
  mu.id = id ∧ ∃ item, Step.entry item ∈ steps ∧ item.isMutation = true ∧ item.entry = mu.entry

/-- Everything in a log goes back to one of these steps. -/
structure Origin (place : Place) (steps : List Step) (log : ChannelLog) : Prop where
  line : ∀ id m, log.base.get? id = some m → LineFrom place steps id m
  mutation : ∀ id mu, log.mutations.get? id = some mu → MutationFrom steps id mu

theorem keep_eq {prior : Option Message} {m r : Message} (h : keep prior m = some r) :
    prior = some r ∨ m = r := by
  cases prior with
  | none => exact .inr (Option.some.inj h)
  | some p =>
    rw [keep] at h
    split at h
    · exact .inr (Option.some.inj h)
    · exact .inl h

theorem entry_of_mutationOf {next : ℕ} {item : Item} {mu : Mutation}
    (h : mutationOf next item = some mu) : item.entry = mu.entry := by
  rw [mutationOf, if_pos (isMutation_of_mutationOf h)] at h
  split at h
  · obtain rfl := Option.some.inj h
    rfl
  · cases h

theorem fileNew_get? {mutations : Dict Str Mutation} {mu mu' : Mutation} {id : Str}
    (h : (fileNew mutations mu).get? id = some mu') :
    mutations.get? id = some mu' ∨ (mu.id = id ∧ mu = mu') := by
  unfold fileNew at h
  split at h
  · exact .inl h
  · exact (Dict.get?_set_cases h).symm.imp_left And.right

theorem origin_entry {place : Place} {steps : List Step} {log : ChannelLog} {item : Item}
    (ho : Origin place steps log) (hitem : Step.entry item ∈ steps) :
    Origin place steps (fold1 place log item) := by
  cases hc : contentOf place item with
  | some m =>
    rw [fold1_of_content hc]
    constructor
    · intro id r hr
      rw [store_get?, noteSeq_base] at hr
      split at hr
      · rename_i hid
        rcases keep_eq hr with h | rfl
        · exact ho.line id r h
        · exact .inl ⟨item, hitem, hc, hid.symm⟩
      · exact ho.line id r hr
    · intro id mu hmu
      rw [store_mutations, noteSeq_mutations] at hmu
      exact ho.mutation id mu hmu
  | none =>
    cases hm : mutationOf log.localSeq item with
    | some mu =>
      obtain ⟨hbase, hmut, -⟩ := fold1_of_mutation place hm
      constructor
      · rw [hbase]
        exact ho.line
      · intro id mu' hmu'
        rw [hmut] at hmu'
        rcases fileNew_get? hmu' with h | ⟨hid, rfl⟩
        · exact ho.mutation id mu' h
        · exact ⟨hid, item, hitem, isMutation_of_mutationOf hm, entry_of_mutationOf hm⟩
    | none =>
      obtain ⟨hbase, hmut, -⟩ := fold1_of_neither hc hm
      exact ⟨by rw [hbase]; exact ho.line, by rw [hmut]; exact ho.mutation⟩

theorem origin_step {place : Place} {steps : List Step} {log : ChannelLog} {step : Step}
    (ho : Origin place steps log) (hstep : step ∈ steps) :
    Origin place steps (step.apply place log) := by
  cases step with
  | entry item => exact origin_entry ho hstep
  | notice text ts =>
    refine ⟨fun id m hm => ?_, ho.mutation⟩
    rcases Dict.get?_set_cases hm with ⟨rfl, rfl⟩ | ⟨-, hm⟩
    · exact .inr ⟨text, ts, _, hstep, rfl, rfl⟩
    · exact ho.line id m hm
  | prune beforeTs =>
    exact ⟨fun id m hm => ho.line id m (Dict.get?_of_filter hm),
      fun id mu hmu => ho.mutation id mu (Dict.get?_of_filter hmu)⟩

/-- **Origins.**  In every log reached by a run, every line was written and every mutation filed by
a step of it. -/
theorem origin (place : Place) (steps : List Step) :
    Origin place steps (runSteps place steps) := by
  have hinit : Origin place steps createChannelLog :=
    ⟨by simp [createChannelLog], by simp [createChannelLog]⟩
  exact List.foldlRecOn steps _ hinit fun _ ho _ hstep => origin_step ho hstep

end Quorum
