import EventVm.Proofs.World.Accounts
import EventVm.Proofs.World.Journals
import EventVm.Proofs.World.Serving

/-!
# What goes over the network

A behaviour that can run may send events over the network if the options allow it and the name of
the event does not begin with an underscore. A call that is permitted hands over one request if
there is a network, and then runs the event here if it goes to all instances or there is no network;
a call that is refused does nothing (`NetworkCall.Keeps`).

Over a whole history, the requests that have been handed over are those of such calls
(`Moment.Chronicle.hands`, `relay_policy`): nothing else makes a request, even though the runs that
calls begin may make calls of their own.
-/

namespace EventVm

open Moment

/-! ### Requests -/

/-- The requests that have been handed to the network, the newest first. -/
def World.requests (w : World) : List RelayRequest :=
  w.journal.filterMap Entry.request?

/-- The deed that makes a request. -/
theorem Deed.request?_eq_some {d : Deed} {q : RelayRequest} (h : d.request? = some q) :
    d = .noted (.relayed q) := by
  cases d with
  | noted e =>
    cases e with
    | relayed q' =>
      cases h
      rfl
    | _ => cases h
  | _ => cases h

/-- A deed hands over the request that it makes, and no other. -/
theorem Moment.Step.requests {k : Access} {c c' : Moment} {d : Deed} (h : Step k c d c') :
    c'.world.requests = d.request?.toList ++ c.world.requests := by
  obtain ⟨new, hj, -, -, hnew⟩ := h.wroteFor
  rw [World.requests, hj, List.filterMap_append, hnew]
  rfl

/-- The requests of an account are those of its deeds. -/
theorem Moment.Trace.requests {k : Access} {base : List OpenRun} {c c' : Moment}
    {es : List (Deed × Moment)} (h : Trace k base c es c') :
    c'.world.requests = es.filterMap (·.1.request?) ++ c.world.requests := by
  induction h with
  | nil => rfl
  | @next es c' c'' d before step within ih =>
    rw [step.requests, ih, List.filterMap_cons]
    cases d.request? <;> rfl

/-- A behaviour's request names it and its program. A hash that was computed before is the one of
the program. -/
theorem World.relayRequest_eq {b : Behaviour} {p : Program} (hp : b.program = some p)
    (target : NetworkTarget) (event : String) :
    relayRequest b p target event = ⟨p.name, p.contentHash, b.id, target, event⟩ := by
  have hhash : b.hash.elim p.contentHash Subtype.val = p.contentHash := by
    cases b.hash with
    | none => rfl
    | some h =>
      obtain ⟨h, q, hq, rfl⟩ := h
      rw [hp] at hq
      cases hq
      rfl
  rw [relayRequest, hhash]

/-! ### Calls -/

/-- A call that sends an event of a behaviour over the network, with the moment at which it
begins. -/
structure NetworkCall where
  moment : Moment
  fuel : Nat
  sender : BehaviourId
  target : NetworkTarget
  event : String

namespace NetworkCall

/-- The world in which the call begins. -/
def world (call : NetworkCall) : World :=
  call.moment.world

/-- What the call does. -/
def run (call : NetworkCall) : Run Unit :=
  World.sendNetworkEvent (World.reentry call.fuel) call.sender call.target call.event

/-- The request of a call whose sender has the program `p`. -/
def request (call : NetworkCall) (p : Program) : RelayRequest :=
  ⟨p.name, p.contentHash, call.sender, call.target, call.event⟩

/-- The sender can run, network events are allowed, and the name of the event does not begin with an
underscore. -/
structure Permitted (call : NetworkCall) : Prop where
  runnable : call.world.IsRunnable call.sender
  allowed : call.world.options.allowNetworkEvents = true
  unreserved : EventTable.isReserved call.event = false

/-- The call does what the rules say. -/
structure Keeps (call : NetworkCall) : Prop where
  /-- A refused call relays nothing and runs nothing. At most it leaves a message. -/
  refused : ¬ call.Permitted → ∃ w', call.run call.world = .ok () w' ∧
    (w' = call.world ∨ ∃ l : LogEvent, w' = call.world.log l)
  /-- A permitted call first hands over its one request, if there is a network. After that it runs
  the event here, if it goes to all instances or there is no network. -/
  permitted : call.Permitted → ∃ b p, call.world.behaviour? call.sender = some b ∧
    b.program = some p ∧
    let handed := call.world.relayFrom b p call.target call.event
    handed.requests =
      (if call.world.relay then [call.request p] else []) ++ call.world.requests ∧
    (call.world.relay = false → handed = call.world) ∧
    call.run call.world =
      if call.target = .all ∨ call.world.relay = false then
        World.sendEvent (World.reentry call.fuel) call.sender call.event handed
      else .ok () handed

/-- The call has handed over the request `q`, which led to the moment `c₁`. `later` is what has
happened since then, `earlier` what had happened before, counted from the moment `c`. -/
structure Hands (k : Access) (base : List OpenRun) (c : Moment) (call : NetworkCall)
    (q : RelayRequest) (later : List (Deed × Moment)) (c₁ : Moment)
    (earlier : List (Deed × Moment)) : Prop where
  permitted : call.Permitted
  connected : call.world.relay = true
  request : ∃ b p, call.world.behaviour? call.sender = some b ∧ b.program = some p ∧
    q = call.request p ∧
    c₁ = ⟨call.world.relayFrom b p call.target call.event, call.moment.runs⟩
  /-- The call only knew the hash and left a message before. -/
  begins : ∃ before logged hashed, Trace k base c before call.moment ∧
    earlier = (.noted (.log (.relaying call.sender call.event call.target)), logged) ::
      (.arranged, hashed) :: before
  /-- What happened next is what the call did after that. -/
  goesOn : ∃ during after c', later = after ++ during ∧ Trace k call.moment.runs c₁ during c' ∧
    call.run.Reaches call.world c'.world

variable {k : Access} {base rs : List OpenRun} {c c₁ c₂ : Moment} {call : NetworkCall}
  {q : RelayRequest} {later earlier es : List (Deed × Moment)}

namespace Hands

/-- More has happened since. -/
theorem since (h : call.Hands k base c q later c₁ earlier) (more : List (Deed × Moment)) :
    call.Hands k base c q (more ++ later) c₁ earlier where
  __ := h
  goesOn := by
    obtain ⟨during, after, c', rfl, htrace, hreached⟩ := h.goesOn
    exact ⟨during, more ++ after, c', (List.append_assoc ..).symm, htrace, hreached⟩

/-- More had happened before. -/
theorem after (h : call.Hands k rs c₂ q later c₁ earlier) (before : Trace k base c es c₂)
    (hb : base <:+ rs) : call.Hands k base c q later c₁ (earlier ++ es) where
  __ := h
  begins := by
    obtain ⟨es', logged, hashed, htrace, rfl⟩ := h.begins
    exact ⟨es' ++ es, logged, hashed, before.trans (htrace.mono hb), rfl⟩

end Hands

/-- A behaviour that may send an event over the network is permitted to. -/
theorem permitted_of_mayRelay {b : Behaviour} {p : Program}
    (h : call.world.MayRelay call.sender call.event b p) : call.Permitted :=
  ⟨⟨b.state, World.state?_of_behaviour? h.found, h.runnable⟩, h.allowed, h.unreserved⟩

end NetworkCall

/-! ### What belongs to a request -/

/-- A list that is cut within a first part, or after it. -/
theorem append_eq_append_cons {α : Type} {xs ys later earlier : List α} {x : α}
    (h : xs ++ ys = later ++ x :: earlier) :
    (∃ mid, xs = later ++ x :: mid ∧ earlier = mid ++ ys) ∨
      ∃ front, later = xs ++ front ∧ ys = front ++ x :: earlier := by
  obtain ⟨front, hlater, hys⟩ | ⟨mid, hxs, hcons⟩ := List.append_eq_append_iff.1 h
  · exact .inr ⟨front, hlater, hys⟩
  · obtain ⟨rfl, hys⟩ | ⟨mid, rfl, hearlier⟩ := List.cons_eq_append_iff.1 hcons
    · exact .inr ⟨[], by simp [hxs], hys⟩
    · exact .inl ⟨mid, hxs, hearlier⟩

namespace Moment

variable {k : Access} {base : List OpenRun} {c c' c₁ : Moment}
  {es es' later earlier : List (Deed × Moment)} {q : RelayRequest}

/-- The call of a chronicle hands over its own request. -/
theorem hands_relayed {u : World} {rs : List OpenRun} {fuel : Nat} {id : BehaviourId}
    {target : NetworkTarget} {event : String} {b : Behaviour} {p : Program}
    (before : Trace k base c es ⟨u, rs⟩) (permitted : u.MayRelay id event b p)
    (connected : u.relay = true)
    (inside : Trace k rs ⟨u.relayFrom b p target event, rs⟩ es' c')
    (reached : (World.sendNetworkEvent (World.reentry fuel) id target event).Reaches u c'.world)
    (hes : (.noted (.relayed q), c₁) :: earlier = handing u rs b p target event ++ es) :
    NetworkCall.Hands k base c ⟨⟨u, rs⟩, fuel, id, target, event⟩ q es' c₁ earlier := by
  cases hes
  have hid := World.id_of_behaviour? permitted.found
  refine ⟨NetworkCall.permitted_of_mayRelay permitted, connected,
    ⟨b, p, permitted.found, permitted.program, ?_, rfl⟩,
    ⟨es, _, _, before, by rw [hid]; rfl⟩, ⟨es', [], c', rfl, inside, reached⟩⟩
  rw [World.relayRequest_eq permitted.program, hid]
  rfl

/-- Every request of a chronicle has been handed over by a call. The induction follows the
chronicle: a plain deed makes no request, a call makes its own, and what happens in the course of
the call is a chronicle again. -/
theorem Chronicle.hands (h : Chronicle k base c es c')
    (hes : es = later ++ (.noted (.relayed q), c₁) :: earlier) :
    ∃ call : NetworkCall, call.Hands k base c q later c₁ earlier := by
  induction h generalizing later earlier with
  | nil => simp at hes
  | @next base es c c₀ c'' d before step plain within ih =>
    obtain ⟨rfl, hnewest⟩ | ⟨later, rfl, hbefore⟩ := List.cons_eq_append_iff.1 hes
    · cases hnewest
      obtain plain | ⟨-, r, hr⟩ := plain
      · cases plain.unrelayed
      · cases hr
    · obtain ⟨call, hcall⟩ := ih hbefore
      exact ⟨call, hcall.since [_]⟩
  | @call base es es' c u rs c' fuel id target event b p before permitted connected inside reached
      ih ih' =>
    obtain ⟨mid, hinside, rfl⟩ | ⟨front, rfl, hrest⟩ := append_eq_append_cons hes
    · obtain ⟨call, hcall⟩ := ih' hinside
      have hbefore := before.trace.trans
        ((trace_handing connected b p target event).mono before.within)
      exact ⟨call, hcall.after hbefore before.within⟩
    obtain ⟨mid, hhanding, rfl⟩ | ⟨front, rfl, hbefore⟩ := append_eq_append_cons hrest
    · -- Of the three deeds with which the call begins, the last is the request.
      obtain _ | ⟨e₀, _ | ⟨e₁, _ | ⟨e₂, front⟩⟩⟩ := front
      · rw [List.append_nil]
        exact ⟨_, hands_relayed before.trace permitted connected inside.trace reached hrest.symm⟩
      · cases hhanding
      · cases hhanding
      · simp [handing] at hhanding
    · obtain ⟨call, hcall⟩ := ih hbefore
      exact ⟨call, by simpa using hcall.since (es' ++ handing u rs b p target event)⟩

end Moment

/-! ### The rules -/

section Rules

variable {k : Access} {base : List OpenRun} {o : Options} {es : List (Deed × Moment)}
  {call : NetworkCall}

/-- A permitted call finds the program of its sender. -/
theorem NetworkCall.Permitted.mayRelay (h : call.Permitted)
    (hcall : Trace k base (start o) es call.moment) :
    ∃ b p, call.world.MayRelay call.sender call.event b p := by
  obtain ⟨s, hs, hr⟩ := h.runnable
  obtain ⟨b, hb, rfl⟩ := Option.map_eq_some_iff.1 hs
  obtain ⟨p, hp⟩ := hcall.plan_of_runnable h.runnable
  have hplan := Option.some.inj ((World.plan?_of_behaviour? hb).symm.trans hp)
  exact ⟨b, p, hb, hr, h.unreserved, h.allowed, congrArg Prod.fst hplan⟩

/-- Wherever a call begins, it does what the rules say. -/
theorem NetworkCall.keeps (hcall : Trace k base (start o) es call.moment) : call.Keeps where
  refused := by
    intro hrefused
    obtain ⟨w', hrun, hw'⟩ := World.sendNetworkEvent_of_not_mayRelay (World.reentry call.fuel)
      call.target fun b p hmay => hrefused (permitted_of_mayRelay hmay)
    exact ⟨w', hrun, hw'.imp_right fun ⟨l, _, hl⟩ => ⟨l, hl⟩⟩
  permitted := by
    intro hpermitted
    obtain ⟨b, p, hmay⟩ := hpermitted.mayRelay hcall
    refine ⟨b, p, hmay.found, hmay.program, ?_, ?_, World.sendNetworkEvent_of_mayRelay hmay⟩
    · have hid := World.id_of_behaviour? hmay.found
      unfold World.relayFrom
      split
      · rw [World.relayRequest_eq hmay.program, hid]
        rfl
      · rfl
    · intro hr
      unfold World.relayFrom
      rw [if_neg (by simp [hr])]

end Rules

/-- The rules for events that go over the network, over all that can happen. There is a chronicle of
every world that a host can reach. Its requests are those that have been handed over, and each comes
from a permitted call, which carried the number of its sender, the name of the sender's program and
the content hash of that program. And every call, wherever in an account it begins, hands over its
request and runs its event here if and only if the rules say so. -/
theorem relay_policy (k : Access) (o : Options) :
    (∀ w, Reachable k o w → ∃ es rs, Chronicle k [] (start o) es ⟨w, rs⟩) ∧
    (∀ es c, Chronicle k [] (start o) es c →
      c.world.requests = es.filterMap (·.1.request?) ∧
      ∀ later q c₁ earlier, es = later ++ (.noted (.relayed q), c₁) :: earlier →
        ∃ call : NetworkCall, call.Hands k [] (start o) q later c₁ earlier) ∧
    ∀ (call : NetworkCall) es, Trace k [] (start o) es call.moment → call.Keeps := by
  refine ⟨fun w hw => hw.chronicle, fun es c h => ⟨?_, fun later q c₁ earlier hes => ?_⟩,
    fun call es h => NetworkCall.keeps h⟩
  · rw [h.trace.requests]
    exact List.append_nil _
  · exact h.hands hes

/-- An event of an idle behaviour that goes to the owner: the one request comes from the one
call. -/
theorem relay_policy_ping : ∃ w es rs call q later c₁ earlier, Reachable ⟨false, false⟩ .default w ∧
    w.requests.map RelayRequest.event = ["ping"] ∧
    Chronicle ⟨false, false⟩ [] (start .default) es ⟨w, rs⟩ ∧
    es = later ++ (.noted (.relayed q), c₁) :: earlier ∧
    NetworkCall.Hands ⟨false, false⟩ [] (start .default) call q later c₁ earlier ∧ call.Keeps := by
  have hsent : ∃ w, Reachable ⟨false, false⟩ .default w ∧
      w.requests.map RelayRequest.event = ["ping"] := by
    refine ⟨_, .between (.act (.act (.act (.act .new
      (.create (.of 100 101) (some (Program.empty "idle"))) rfl)
      (.operate 1 ⟨1⟩ (show Operation.Permitted _ .activate from .inr rfl)) rfl) .connect rfl)
      (.operate 1 ⟨1⟩ (show Operation.Permitted _ (.network .owner "ping") from .inr rfl)) rfl), ?_⟩
    rfl
  obtain ⟨w, hw, hping⟩ := hsent
  obtain ⟨hchronicled, hhands, hkeeps⟩ := relay_policy ⟨false, false⟩ .default
  obtain ⟨es, rs, hes⟩ := hchronicled w hw
  obtain ⟨hrequests, hcalls⟩ := hhands es _ hes
  obtain ⟨q, hq, -⟩ : ∃ q ∈ w.requests, q.event = "ping" := by
    rw [← List.mem_map, hping]
    exact List.mem_singleton_self _
  rw [hrequests] at hq
  obtain ⟨⟨d, c₁⟩, hmem, hd⟩ := List.mem_filterMap.1 hq
  obtain rfl := Deed.request?_eq_some hd
  obtain ⟨later, earlier, hsplit⟩ := List.append_of_mem hmem
  obtain ⟨call, hcall⟩ := hcalls later q c₁ earlier hsplit
  obtain ⟨before, _, _, hbefore, -⟩ := hcall.begins
  exact ⟨w, es, rs, call, q, later, c₁, earlier, hw, hping, hes, hsplit, hcall,
    hkeeps call before hbefore⟩

end EventVm
