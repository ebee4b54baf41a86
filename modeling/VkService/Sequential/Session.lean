import VkService.Domain.Handlers

/-! Requests one after the other: each runs in its own session over the committed tables,
and only what it commits is left. -/
namespace VkService
open PyStr Effects

/-- An open session: the committed tables and the rows its transaction sees. -/
structure Session where
  committed : Tables
  working : Tables

namespace Session

def start (T : Tables) : Session := ⟨T, T⟩

def newIds (w : World) (s : Session) : NewIds where
  userVk := w.newId (s.working.userVks.map (·.id))
  vkConfirmation := w.newId (s.working.vkConfirmations.map (·.id))

def apply (s : Session) : Change → Session
  | .commit => ⟨s.working, s.working⟩
  | .rollback => ⟨s.committed, s.committed⟩
  | c => ⟨s.committed, c.apply s.working⟩

/-- One call at the given state of the surroundings. -/
def exec (w : World) (c : Call) (s : Session) : Except Exn c.Reply × Session :=
  let out := answer w (s.newIds w) s.working c
  (out.1, s.apply out.2)

end Session

/-- The handler of a session in surroundings that may depend on what was called so far. -/
def handler (world : CallHistory → World) (h : CallHistory) (c : Call) (s : Session) :
    Except Exn c.Reply × Session :=
  s.exec (world h) c

/-- The surroundings at the successive calls of one request. -/
abbrev Surroundings := Nat → World

/-- Run a program in a new session: its result, its history, the committed tables. -/
def runAlone {α : Type} (p : Py α) (o : Surroundings) (T : Tables) : Except Exn α × CallHistory × Tables :=
  let out := p.run (handler fun h => o h.length) [] (Session.start T)
  (out.1, out.2.1, out.2.2.committed)

/-- A request with its surroundings. -/
structure Visit where
  request : Request
  world : Surroundings

/-- One request to its end. -/
def serve (settings : VkSettings) (T : Tables) (v : Visit) : Except Exn Answer × CallHistory × Tables :=
  runAlone (v.request.prog settings) v.world T

/-- The tables after a sequence of requests. -/
def serveAll (settings : VkSettings) (T : Tables) (visits : List Visit) : Tables :=
  visits.foldl (fun T v => (serve settings T v).2.2) T

@[simp] theorem serveAll_nil (settings : VkSettings) (T : Tables) : serveAll settings T [] = T := rfl
@[simp] theorem serveAll_cons (settings : VkSettings) (T : Tables) (v : Visit) (vs : List Visit) :
    serveAll settings T (v :: vs) = serveAll settings (serve settings T v).2.2 vs := rfl
@[simp] theorem serveAll_append (settings : VkSettings) (T : Tables) (vs vs' : List Visit) :
    serveAll settings T (vs ++ vs') = serveAll settings (serveAll settings T vs) vs' := by
  simp [serveAll]

/-- What each request keeps, a sequence keeps. -/
theorem serveAll_induction {settings : VkSettings} {P : Tables → Prop} {T : Tables} (h0 : P T)
    (hstep : ∀ T v, P T → P (serve settings T v).2.2) (visits : List Visit) :
    P (serveAll settings T visits) := by
  induction visits generalizing T with
  | nil => exact h0
  | cons v vs ih => exact ih (hstep T v h0)

/-- One request of a run, with the tables around it. -/
structure Episode where
  visit : Visit
  before : Tables
  result : Except Exn Answer
  after : Tables

/-- The episode of a request. -/
def episode (settings : VkSettings) (T : Tables) (v : Visit) : Episode :=
  ⟨v, T, (serve settings T v).1, (serve settings T v).2.2⟩

def episodes (settings : VkSettings) : Tables → List Visit → List Episode
  | _, [] => []
  | T, v :: vs => episode settings T v :: episodes settings (serve settings T v).2.2 vs

section Runs
variable {settings : VkSettings} {T : Tables}

theorem episodes_append (vs vs' : List Visit) : episodes settings T (vs ++ vs') =
    episodes settings T vs ++ episodes settings (serveAll settings T vs) vs' := by
  induction vs generalizing T with
  | nil => rfl
  | cons v vs ih => simp [episodes, ih]

/-- Every episode of a run is that of its request after the requests before it. -/
theorem episodes_split {visits : List Visit} {earlier : List Episode} {ep : Episode} {later : List Episode}
    (h : episodes settings T visits = earlier ++ ep :: later) :
    ∃ vs v vs', visits = vs ++ v :: vs' ∧ earlier = episodes settings T vs ∧
      ep = episode settings (serveAll settings T vs) v := by
  induction visits generalizing T earlier with
  | nil => simp [episodes] at h
  | cons v visits ih =>
    cases earlier with
    | nil =>
      simp only [episodes, List.nil_append, List.cons.injEq] at h
      exact ⟨[], v, visits, rfl, rfl, h.1.symm⟩
    | cons first earlier =>
      simp only [episodes, List.cons_append, List.cons.injEq] at h
      obtain ⟨vs, v', vs', rfl, rfl, hep⟩ := ih h.2
      exact ⟨v :: vs, v', vs', rfl, by rw [episodes, h.1], hep⟩

end Runs
end VkService
