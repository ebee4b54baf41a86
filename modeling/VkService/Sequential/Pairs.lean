import VkService.Domain.Handlers
import VkService.Effects.Coupled

/-! The code around a service in two runs side by side: what it adds to a pair of bodies that
stay together stays together. -/
namespace VkService
open Effects Effects.Prog
variable {α α' σ σ' : Type} {P : Pairing Call Call.Reply Exn σ σ'} {V : α → α' → Prop} {body : Py α} {body' : Py α'}

theorem coupled_withSession (hclose : P.Agree .close .close Eq) (hbody : P.Coupled V body body') :
    P.Coupled V (withSession body) (withSession body') :=
  .bind (.attempt hbody) fun _ _ hr => .bind (.perform hclose) fun _ _ _ => .ofExcept hr

theorem coupled_getSession (hcommit : P.Agree .commit .commit Eq) (hrollback : P.Agree .rollback .rollback Eq)
    (hclose : P.Agree .close .close Eq) (hbody : P.Coupled V body body') :
    P.Coupled V (getSession body) (getSession body') := by
  refine coupled_withSession hclose (.tryCatch ?_ fun e => ?_)
  · exact .bind hbody fun _ _ hV => .bind (.perform hcommit) fun _ _ _ => .ret hV
  · split
    · exact .bind (.perform hrollback) fun _ _ _ => .raise e
    · exact .raise e

theorem coupled_botCommit (hcommit : P.Agree .commit .commit Eq) (hclose : P.Agree .close .close Eq) :
    P.Coupled Eq botCommit botCommit := by
  refine .bind (.attempt (.perform hcommit)) fun _ _ hr => ?_
  exact .bind (.perform hclose) fun _ _ _ => .ofExcept hr

theorem coupled_attemptDomain {body body' : Py α} (hbody : P.Coupled Eq body body') :
    P.Coupled Eq (attemptDomain body) (attemptDomain body') := by
  refine .tryCatch (.bind hbody ?_) fun e => ?_
  · rintro a _ rfl
    exact .ret rfl
  · split
    · exact .ret rfl
    · exact .raise e

end VkService
