import Quorum.Order.Along
import Quorum.Store.Memory

/-!
# What a call changes

Each part of the store is changed by a few of its functions only.  `Call.touches` lists them, and
`frame` says that the others leave the part alone.
-/

namespace Quorum.Store

open Js (Dict)

inductive Part
  | users
  | groups
  | invites
  | claims
deriving DecidableEq

/-- The parts a call may change, of those that are told apart. -/
def Call.touches : Call → List Part
  | .registerUser .. => [.users]
  | .createGroup .. => [.groups]
  | .allowMember .. => [.groups]
  | .disallowMember .. => [.groups]
  | .deleteGroup .. => [.groups, .invites]
  | .setMemberRole .. => [.groups]
  | .appendMessage .. => [.groups]
  | .appendHistory .. => [.groups]
  | .sweepExpiredHistory .. => [.groups]
  | .historyPage .. => [.groups]
  | .redactHistory .. => [.groups]
  | .pruneHistory .. => [.groups]
  | .createInvite .. => [.invites]
  | .updateInvite .. => [.invites]
  | .revokeInvite .. => [.invites]
  | .redeemInvite .. => [.invites, .claims]
  | .claimInviteForRegistration .. => [.invites, .claims]
  | _ => []

namespace MemoryStore

variable (inner : MemoryInner)

/-- The gate at registration does what redeeming does. -/
theorem claimInviteForRegistration_snd (invite user : String) (now : ℕ) :
    (claimInviteForRegistration invite user now inner).2 =
      (redeemInvite invite user now inner).2 := by
  unfold claimInviteForRegistration
  split <;> rename_i h <;> rw [h]

/-- It lets somebody in exactly when they could redeem the invite. -/
theorem claimInviteForRegistration_eq_true (invite user : String) (now : ℕ) :
    (claimInviteForRegistration invite user now inner).1 = .ok true ↔
      (redeemInvite invite user now inner).1.isOk := by
  unfold claimInviteForRegistration
  split <;> rename_i h <;> rw [h] <;> simp [Except.isOk, Except.toBool]

/-- A call leaves a part of the store as it was. -/
structure Frame (inner inner' : MemoryInner) (touched : List Part) : Prop where
  users : .users ∉ touched → inner'.users = inner.users
  groups : .groups ∉ touched → inner'.groups = inner.groups
  invites : .invites ∉ touched → inner'.invites = inner.invites
  claims : .claims ∉ touched → inner'.inviteClaims = inner.inviteClaims

theorem frame_redeemInvite (invite user : String) (now : ℕ) :
    Frame inner (redeemInvite invite user now inner).2 [.invites, .claims] := by
  simp only [redeemInvite]
  repeat' split
  all_goals exact ⟨fun _ => rfl, fun _ => rfl, by simp, by simp⟩

/-- **A call leaves alone what it does not touch.** -/
theorem frame (c : Call) : Frame inner (after inner c) c.touches := by
  cases c with
  | redeemInvite invite user now => exact frame_redeemInvite inner invite user now
  | claimInviteForRegistration invite user now =>
    have h : after inner (.claimInviteForRegistration invite user now) =
        (redeemInvite invite user now inner).2 := claimInviteForRegistration_snd ..
    rw [h]
    exact frame_redeemInvite inner invite user now
  | registerUser | takeKeyPackage | createGroup | allowMember | disallowMember | setMemberRole
  | groupMembers | appendMessage | messagesAfter | appendHistory | historyPage | historyCount
  | redactHistory | pruneHistory | setBackup | addPasskeyWrap | deletePasskeyWrap
  | deletePushSubscription | createInvite | updateInvite =>
    -- Whatever branch is taken, the parts that are not listed are written back as they are.
    simp only [after, call, answering, Call.touches, registerUser, takeKeyPackage, createGroup,
      allowMember, disallowMember, setMemberRole, groupMembers, appendMessage, messagesAfter,
      appendHistory, historyPage, historyCount, redactHistory, pruneHistory, setBackup,
      addPasskeyWrap, deletePasskeyWrap, deletePushSubscription, createInvite, updateInvite,
      retainIn]
    repeat' split
    all_goals constructor <;> simp
  | _ => constructor <;> simp [after, call, answering, Call.touches, getUserPubkey, userCount,
      publishKeyPackages, deleteGroup, isMember, memberRole, listUsers, listGroups, storeWelcome,
      takeWelcomes, sweepExpiredHistory, getBackup, setVault, getVault, listPasskeyVaults,
      getPasskeyWrap, listPasskeyWraps, putPushSubscription, pushSubscriptionsFor, inviteGroup,
      revokeInvite]

/-- The key of a user is written once. -/
theorem users_after (c : Call) :
    (after inner c).users = inner.users ∨
      ∃ user pubkey, c = .registerUser user pubkey ∧ inner.users.get? user = none ∧
        (after inner c).users = inner.users.set user pubkey := by
  by_cases hc : Part.users ∈ c.touches
  · cases c with
    | registerUser user pubkey =>
      cases h : inner.users.get? user with
      | some key =>
        left
        simp only [after, call, answering, registerUser, h]
      | none =>
        refine .inr ⟨user, pubkey, rfl, h, ?_⟩
        simp only [after, call, answering, registerUser, h]
    | _ => simp [Call.touches] at hc
  · exact .inl ((frame inner c).users hc)

end MemoryStore

end Quorum.Store
