import Quorum.Board

/-!
# The membership ledger

Nobody adds a member alone: a member proposes somebody, the circle signs, and at the threshold the
proposal carries (`quorum.js`).  A proposal counts as signed by whoever puts it forward, and an
objection is recorded beside the count.  The signer is the authenticated sender of an envelope, and
the rest of a payload is normalized on receive.
-/

namespace Quorum

open Js

def WHY_MAX : ℕ := 400

def PROPOSALS_MAX : ℕ := 16

/-- The most signers, and the most objectors, a proposal lists. -/
def VOICES_MAX : ℕ := 64

structure Signature where
  who : Str
  at_ : Number
deriving DecidableEq

/-- An objection, with its reason. -/
structure Objection where
  who : Str
  why : Str
  at_ : Number
deriving DecidableEq

/-- A proposal to admit `handle`, put forward by `by_`. -/
structure Proposal where
  id : Str
  handle : Str
  why : Option Str
  by_ : Str
  at_ : Number
  signatures : List Signature
  objections : List Objection
deriving DecidableEq

/-! ### The threshold -/

/-- `defaultThreshold(memberCount)`: a majority, and never fewer than two in company. -/
def defaultThreshold (memberCount : ℕ) : ℕ :=
  let n := max 1 memberCount
  if n = 1 then 1 else max 2 ((n + 1) / 2)

/-- `normalizeThreshold(value, memberCount)`. -/
def normalizeThreshold (value : Value) (memberCount : ℕ) : Except Error ℕ := do
  let n := max 1 memberCount
  match ← value.toNum with
  | .fin d => return min n (max (if n = 1 then 1 else 2) ⌊d.val⌋).toNat
  | _ => return defaultThreshold n

/-! ### Writing to the ledger -/

/-- `normalizeProposal(p, by, now)`. -/
def normalizeProposal (platform : Platform) (p by_ : Value) (now : Number) :
    Except Error (Option Proposal) := do
  if !p.truthy || !p.isObject then
    return none
  let id := slice (← (p.get (lit "id")).text) 40
  let handle := platform.toLowerCase (trim (slice (← (p.get (lit "handle")).text) 64))
  let why := trim (slice (← (p.get (lit "why")).text) WHY_MAX)
  let at_ ← claimedTime (p.get (lit "at")) now
  if id = [] ∨ handle = [] ∨ !by_.truthy then
    return none
  let name ← by_.toStr
  return some
    { id, handle, why := unlessEmpty why, by_ := name, at_
      signatures := [{ who := name, at_ }], objections := [] }

/-- A proposal in place of an earlier one under its id keeps the voices already on it. -/
def Proposal.over (proposal : Proposal) : Option Proposal → Proposal
  | some prior =>
    { proposal with signatures := prior.signatures, objections := prior.objections }
  | none => proposal

/-- `upsertProposal(list, proposal)`. -/
def upsertProposal (list : List Proposal) (proposal : Proposal) : List Proposal :=
  (newestFirst Proposal.at_ (proposal.over (list.find? (·.id == proposal.id)) ::
    list.filter fun p => p.id ≠ proposal.id)).take PROPOSALS_MAX

/-- One line of `applySignature`. -/
def Proposal.sign (p : Proposal) (who : Str) (at_ : Number) : Proposal :=
  if p.signatures.any (·.who == who) then p
  else if VOICES_MAX ≤ p.signatures.length then p
  else
    { p with
      signatures := p.signatures ++ [{ who, at_ }]
      objections := p.objections.filter fun o => o.who ≠ who }

/-- `applySignature(list, id, who, at)`. -/
def applySignature (list : List Proposal) (id : Value) (who : Str) (at_ : Number) : List Proposal :=
  list.map fun p => if (Value.str p.id).strictEq id then p.sign who at_ else p

/-- One line of `applyObjection`. -/
def Proposal.object (p : Proposal) (who reason : Str) (at_ : Number) : Proposal :=
  if VOICES_MAX ≤ p.objections.length ∧ !p.objections.any (·.who == who) then p
  else
    { p with
      signatures := p.signatures.filter fun s => s.who ≠ who
      objections := (p.objections.filter fun o => o.who ≠ who) ++ [{ who, why := reason, at_ }] }

/-- `applyObjection(list, id, who, why, at)`. -/
def applyObjection (list : List Proposal) (id : Value) (who : Str) (why : Value) (at_ : Number) :
    Except Error (List Proposal) := do
  let reason := trim (slice (← why.text) WHY_MAX)
  if reason = [] then
    return list
  return list.map fun p => if (Value.str p.id).strictEq id then p.object who reason at_ else p

/-- `canWithdraw(proposal, requester, isAdmin)`. -/
def canWithdraw (proposal : Proposal) (requester : Str) (isAdmin : Bool) : Bool :=
  proposal.by_ == requester || isAdmin

/-! ### Reading the ledger -/

/-- `standingSignatures(proposal, members)`. -/
def standingSignatures (proposal : Proposal) (members : List Str) : List Signature :=
  proposal.signatures.filter fun s => s.who ∈ members

/-- `isCarried(proposal, threshold, members)`. -/
def isCarried (proposal : Proposal) (threshold : ℕ) (members : List Str) : Bool :=
  max 1 threshold ≤ (standingSignatures proposal members).length

/-! ### A ledger off the wire -/

/-- A voice on a listed proposal: the name, or nothing without one, and the time, which defaults to
that of the proposal. -/
def readVoice (v : Value) (base : Number) : Except Error (Option (Str × Number)) := do
  let who ← (v.get (lit "who")).text
  let at_ ← (v.get (lit "at")).toNum
  if who = [] then
    return none
  return some (who, if at_.isFinite ∧ Number.lt 0 at_ then at_ else base)

/-- `voices(arr, false)`. -/
def listedSignatures (arr : Value) (base : Number) : Except Error (List Signature) := do
  let voices ← (arrayOrEmpty arr).mapM fun v => do
    return (← readVoice v base).map fun (who, at_) => ({ who, at_ } : Signature)
  return voices.reduceOption.take VOICES_MAX

/-- `voices(arr, true)`: a voice without a reason is dropped. -/
def listedObjections (arr : Value) (base : Number) : Except Error (List Objection) := do
  let voices ← (arrayOrEmpty arr).mapM fun v => do
    match ← readVoice v base with
    | none => return none
    | some (who, at_) =>
      let why := trim (slice (← (v.get (lit "why")).text) WHY_MAX)
      return some ({ who, why, at_ } : Objection)
  return (voices.reduceOption.filter fun o => o.why ≠ []).take VOICES_MAX

/-- The proposer's signature is implied by the proposal. -/
def withProposer (base : Proposal) (signatures : List Signature) : List Signature :=
  if signatures.any (·.who == base.by_) then signatures
  else signatures ++ [{ who := base.by_, at_ := base.at_ }]

/-- One proposal of a rebroadcast, which lists its voices. -/
def normalizeListedProposal (platform : Platform) (p : Value) (now : Number) :
    Except Error (Option Proposal) := do
  match ← normalizeProposal platform p (p.get (lit "by")) now with
  | none => return none
  | some base =>
    let signatures ← listedSignatures (p.get (lit "signatures")) base.at_
    let objections ← listedObjections (p.get (lit "objections")) base.at_
    return some { base with signatures := withProposer base signatures, objections }

/-- `normalizeProposals(list, now)`. -/
def normalizeProposals (platform : Platform) (list : List Value) (now : Number) :
    Except Error (List Proposal) := do
  let proposals ← list.mapM fun p => normalizeListedProposal platform p now
  return (newestFirst Proposal.at_ proposals.reduceOption).take PROPOSALS_MAX

/-- `mergeProposals(mine, incoming)`: ids this device already has win. -/
def mergeProposals (mine incoming : List Proposal) : List Proposal :=
  (newestFirst Proposal.at_
    (mine ++ incoming.filter fun p => !mine.any (·.id == p.id))).take PROPOSALS_MAX

end Quorum
