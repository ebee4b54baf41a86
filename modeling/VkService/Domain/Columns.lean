import Mathlib.Algebra.Ring.Int.Defs
import VkService.Domain.Services

/-! The types of the columns. The repositories pass every value on, and PostgreSQL or its
driver refuses the ones that a column cannot hold. -/
namespace VkService
open PyStr Effects

/-- The `DBAPIError` of a refused statement. It is no `IntegrityError`, so that no
repository catches it. -/
def dbapiError : Exn := .foreign 0

/-- `BigInteger`. -/
def bigInteger (n : Int) : Bool := -2 ^ 63 ≤ n && n < 2 ^ 63

/-- No text holds the character U+0000. -/
def nulFree (s : Str) : Bool := s.all (· != '\x00')

theorem nulFree_append (s t : Str) : nulFree (s ++ t) = (nulFree s && nulFree t) := List.all_append

theorem nulFree_of_isDigit {s : Str} (h : ∀ c ∈ s, c.isDigit = true) : nulFree s = true := by
  rw [nulFree, List.all_eq_true]
  intro c hc
  have hdigit := h c hc
  rw [bne_iff_ne]
  rintro rfl
  cases hdigit

theorem nulFree_nat (n : Nat) : nulFree (toString n).toList = true := by
  rw [show toString n = Nat.repr n from rfl, Nat.repr, String.toList_ofList]
  exact nulFree_of_isDigit fun c hc => Nat.isDigit_of_mem_toDigits (by decide) (by decide) hc

theorem nulFree_int (n : Int) : nulFree (toString n).toList = true := by
  cases n with
  | ofNat n => exact nulFree_nat n
  | negSucc n =>
    show nulFree ("-" ++ toString (n + 1)).toList = true
    rw [String.toList_append, nulFree_append, nulFree_nat]
    rfl

theorem nulFree_maskCode {code : Str} (h : nulFree code = true) : nulFree (maskCode code).toList = true := by
  have htake : nulFree (code.take 2) = true := by
    rw [nulFree, List.all_eq_true] at h ⊢
    exact fun c hc => h c (List.mem_of_mem_take hc)
  simp only [maskCode, String.toList_append, nulFree_append, String.toList_ofList, htake, nulFree_nat]
  rfl
/-- `String(n)`: of a longer text only blanks may be cut. -/
def varchar (n : Nat) (s : String) : Bool := nulFree s.toList && (s.toList.drop n).all (· == ' ')

/-- A text as a column of type `String(n)` keeps it. -/
def cut (n : Nat) (s : String) : String := String.ofList (s.toList.take n)

def VkUserProfile.varchar (p : VkUserProfile) : Bool :=
  p.screenName.all (VkService.varchar 64) && p.displayName.all (VkService.varchar 255)

def VkUserProfile.cut (p : VkUserProfile) : VkUserProfile :=
  ⟨p.screenName.map (VkService.cut 64), p.displayName.map (VkService.cut 255)⟩

/-- Every value that a call passes to the database has a type the database takes it for. -/
def Call.fits : Call → Bool
  | .userVkGetByPeerId vkPeerId => bigInteger vkPeerId
  | .userVkActivate _ vkPeerId screenName displayName =>
      bigInteger vkPeerId && (VkUserProfile.mk screenName displayName).varchar
  | .confirmationCreate _ code _ => varchar 16 (String.ofList code)
  | .confirmationGetByCode code => nulFree code
  | .logAction _ _ details => details.all fun field => nulFree field.2.toList
  | .claimAttempt _ _ vkPeerId => bigInteger vkPeerId
  | .markFailed _ _ errorCategory => nulFree errorCategory.toList
  | _ => true

/-- `activate` with the names as the columns keep them. -/
def UserVkRepository.activateCut (w : World) (T : Tables) (recordId : UUID) (vkPeerId : PeerId)
    (screenName displayName : Option String) : Except Exn UserVk × Change :=
  activate w T recordId vkPeerId (screenName.map (cut 64)) (displayName.map (cut 255))

/-- `answer` of a database whose columns have types. A refused statement changes nothing. -/
def answerInColumns (w : World) (ids : NewIds) (T : Tables) (c : Call) : Except Exn c.Reply × Change :=
  if c.fits then
    match c with
    | .userVkActivate recordId vkPeerId screenName displayName =>
        UserVkRepository.activateCut w T recordId vkPeerId screenName displayName
    | c => answer w ids T c
  else (.error dbapiError, .nothing)

/-- The call that stores the same values as this one, with nothing left to cut. -/
def cutEvent : CallEvent → CallEvent
  | ⟨.userVkActivate recordId vkPeerId screenName displayName, reply⟩ =>
      ⟨.userVkActivate recordId vkPeerId (screenName.map (VkService.cut 64)) (displayName.map (VkService.cut 255)), reply⟩
  | ⟨.getProfile peerId, reply⟩ => ⟨.getProfile peerId, reply.map (Option.map VkUserProfile.cut)⟩
  | e => e

def World.cut (w : World) : World := { w with profile := w.profile.map VkUserProfile.cut }

end VkService
