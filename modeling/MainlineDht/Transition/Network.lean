import MainlineDht.Transition.Core
import Mathlib.Logic.Function.Basic
import Mathlib.Tactic.SplitIfs

/-!
# Networks of components

Components of different kinds run beside each other and exchange packets.  An
action of a component reads at most one packet and writes any number.  What has
been written stays in flight: it may be read never, or again and again, and in
any order.  A packet is read under an address that leads to its sender, by the
component that the address it was written to leads to.

So knowledge of what has been written is never lost, and an invariant of the
whole may be shown component by component: each relies on the packets that it
reads and guarantees those that it writes.
-/

namespace MainlineDht.Transition

universe u v w x y

/-- A kind of component: its steps, what an action reads and from which address,
and what it writes in a state and to which addresses. -/
structure Endpoint (σ : Type u) (α : Type v) (A : Type w) (P : Type x) where
  next : Step σ α
  reads : α → Option (A × P)
  writes : σ → α → List (A × P)

namespace Endpoint

variable {σ : Type u} {α : Type v} {A : Type w} {B : Type y} {P : Type x}

/-- The same component under other addresses. -/
def mapAddress (f : A → B) (endpoint : Endpoint σ α A P) : Endpoint σ α B P where
  next := endpoint.next
  reads action := (endpoint.reads action).map fun read => (f read.1, read.2)
  writes state action := (endpoint.writes state action).map fun one => (f one.1, one.2)

/-- The steps that read nothing. -/
def inner (endpoint : Endpoint σ α A P) : Step σ α := fun state action =>
  if endpoint.reads action = none then endpoint.next state action else none

variable {endpoint : Endpoint σ α A P} {state after : σ} {action : α}

theorem inner_eq_some : endpoint.inner state action = some after ↔
    endpoint.reads action = none ∧ endpoint.next state action = some after := by
  rw [inner, Option.ite_none_right_eq_some]

end Endpoint

/-- A packet: which component has written it, to which address, and what it carries. -/
structure Packet (ι : Type y) (A : Type w) (P : Type x) where
  sender : ι
  dest : A
  payload : P
  deriving DecidableEq

/-- The states of the components, and all packets that have been written. -/
structure Network {ι : Type y} (σ : ι → Type u) (A : Type w) (P : Type x) where
  node : ∀ i, σ i
  inFlight : List (Packet ι A P)

variable {ι : Type y} {σ : ι → Type u} {α : ι → Type v} {A : Type w} {P : Type x}

/-- Some packet in flight may be read by the component as the given one. -/
def Arrives (route : A → Option ι) (inFlight : List (Packet ι A P)) (i : ι) :
    Option (A × P) → Prop
  | none => True
  | some (source, payload) => ∃ packet ∈ inFlight,
      route source = some packet.sender ∧ route packet.dest = some i ∧ packet.payload = payload

instance [DecidableEq ι] [DecidableEq P] (route : A → Option ι)
    (inFlight : List (Packet ι A P)) (i : ι) (read : Option (A × P)) :
    Decidable (Arrives route inFlight i read) :=
  match read with
  | none => isTrue trivial
  | some (source, payload) => inferInstanceAs (Decidable (∃ packet ∈ inFlight,
      route source = some packet.sender ∧ route packet.dest = some i ∧ packet.payload = payload))

/-- The packets that a component has written. -/
def packets (i : ι) (written : List (A × P)) : List (Packet ι A P) :=
  written.map fun one => ⟨i, one.1, one.2⟩

theorem mem_packets {i : ι} {written : List (A × P)} {packet : Packet ι A P} :
    packet ∈ packets i written ↔
      packet.sender = i ∧ (packet.dest, packet.payload) ∈ written := by
  rw [packets, List.mem_map]
  constructor
  · rintro ⟨one, member, rfl⟩
    exact ⟨rfl, member⟩
  · rintro ⟨rfl, member⟩
    exact ⟨_, member, rfl⟩

namespace Network

variable [DecidableEq ι]

/-- The network after an action of a component. -/
def act (net : Network σ A P) (i : ι) (written : List (A × P)) (after : σ i) :
    Network σ A P where
  node := Function.update net.node i after
  inFlight := packets i written ++ net.inFlight

section Act

variable (net : Network σ A P) (i : ι) (written : List (A × P)) (after : σ i)

@[simp]
theorem act_node_self : (net.act i written after).node i = after :=
  Function.update_self _ _ _

theorem act_node_of_ne {j : ι} (other : j ≠ i) : (net.act i written after).node j = net.node j :=
  Function.update_of_ne other _ _

@[simp]
theorem act_inFlight : (net.act i written after).inFlight = packets i written ++ net.inFlight :=
  rfl

end Act

variable [DecidableEq P]

/-- A step of one component, if what it reads may be read. -/
def step (endpoint : ∀ i, Endpoint (σ i) (α i) A P) (route : A → Option ι) :
    Step (Network σ A P) (Σ i, α i)
  | net, ⟨i, action⟩ =>
      if Arrives route net.inFlight i ((endpoint i).reads action) then
        ((endpoint i).next (net.node i) action).map
          (net.act i ((endpoint i).writes (net.node i) action))
      else none

variable {endpoint : ∀ i, Endpoint (σ i) (α i) A P} {route : A → Option ι}
  {start net net' : Network σ A P} {history : List (Network σ A P × Σ i, α i)}

theorem step_eq_some {i : ι} {action : α i} :
    step endpoint route net ⟨i, action⟩ = some net' ↔
      Arrives route net.inFlight i ((endpoint i).reads action) ∧
        ∃ after, (endpoint i).next (net.node i) action = some after ∧
          net' = net.act i ((endpoint i).writes (net.node i) action) after := by
  rw [step]
  split_ifs with arrives
  · rw [Option.map_eq_some_iff]
    constructor
    · rintro ⟨after, performed, rfl⟩
      exact ⟨arrives, after, performed, rfl⟩
    · rintro ⟨_, after, performed, rfl⟩
      exact ⟨after, performed, rfl⟩
  · constructor
    · rintro ⟨⟩
    · rintro ⟨held, _⟩
      exact absurd held arrives

/-! ## Runs -/

/-- The actions of one component. -/
def own (i : ι) (action : Σ i, α i) : Option (α i) :=
  if same : action.1 = i then some (same ▸ action.2) else none

/-- A run of the network is a run of each of its components. -/
theorem run_node (run : Run (step endpoint route) start history net) (i : ι) :
    Run (endpoint i).next (start.node i)
      (component (fun net => net.node i) (fun _ => own i) history) (net.node i) := by
  apply run.component
  · rintro before ⟨j, action⟩ after b stepped visible
    rcases step_eq_some.mp stepped with ⟨_, own', performed, rfl⟩
    unfold own at visible
    split_ifs at visible with same
    subst same
    cases visible
    rw [act_node_self]
    exact performed
  · rintro before ⟨j, action⟩ after stepped hidden
    rcases step_eq_some.mp stepped with ⟨_, own', performed, rfl⟩
    unfold own at hidden
    split_ifs at hidden with same
    exact act_node_of_ne _ _ _ _ (Ne.symm same)

/-! ## Relying and guaranteeing -/

/-- What each component keeps (`Local`) and what every packet is (`Valid`), both
as far as the packets in flight tell. -/
structure Exchange (endpoint : ∀ i, Endpoint (σ i) (α i) A P) (route : A → Option ι)
    (Local : ∀ i, List (Packet ι A P) → σ i → Prop)
    (Valid : List (Packet ι A P) → Packet ι A P → Prop) : Prop where
  local_mono {i : ι} {inFlight more : List (Packet ι A P)} {state : σ i} :
    inFlight ⊆ more → Local i inFlight state → Local i more state
  valid_mono {inFlight more : List (Packet ι A P)} {packet : Packet ι A P} :
    inFlight ⊆ more → Valid inFlight packet → Valid more packet
  keeps {i : ι} {inFlight : List (Packet ι A P)} {state after : σ i} {action : α i} :
    Local i inFlight state → (∀ packet ∈ inFlight, Valid inFlight packet) →
      Arrives route inFlight i ((endpoint i).reads action) →
      (endpoint i).next state action = some after →
      Local i (packets i ((endpoint i).writes state action) ++ inFlight) after
  guarantees {i : ι} {inFlight : List (Packet ι A P)} {state after : σ i} {action : α i} :
    Local i inFlight state → (∀ packet ∈ inFlight, Valid inFlight packet) →
      Arrives route inFlight i ((endpoint i).reads action) →
      (endpoint i).next state action = some after →
      ∀ packet ∈ packets i ((endpoint i).writes state action),
        Valid (packets i ((endpoint i).writes state action) ++ inFlight) packet

/-- The components keep what they keep, and the packets are what they are. -/
structure Sound (Local : ∀ i, List (Packet ι A P) → σ i → Prop)
    (Valid : List (Packet ι A P) → Packet ι A P → Prop) (net : Network σ A P) : Prop where
  node (i : ι) : Local i net.inFlight (net.node i)
  packet : ∀ packet ∈ net.inFlight, Valid net.inFlight packet

variable {Local : ∀ i, List (Packet ι A P) → σ i → Prop}
  {Valid : List (Packet ι A P) → Packet ι A P → Prop}

/-- One step of any component keeps the whole sound. -/
theorem Exchange.sound_step (exchange : Exchange endpoint route Local Valid)
    {action : Σ i, α i} (sound : net.Sound Local Valid)
    (stepped : step endpoint route net action = some net') : net'.Sound Local Valid := by
  rcases action with ⟨i, action⟩
  rcases step_eq_some.mp stepped with ⟨arrives, after, performed, rfl⟩
  have grown : net.inFlight ⊆
      (net.act i ((endpoint i).writes (net.node i) action) after).inFlight :=
    List.subset_append_right _ _
  constructor
  · intro j
    by_cases here : j = i
    · subst here
      rw [act_node_self]
      exact exchange.keeps (sound.node j) sound.packet arrives performed
    · rw [act_node_of_ne _ _ _ _ here]
      exact exchange.local_mono grown (sound.node j)
  · intro packet member
    rcases List.mem_append.mp member with written | earlier
    · exact exchange.guarantees (sound.node i) sound.packet arrives performed packet written
    · exact exchange.valid_mono grown (sound.packet packet earlier)

/-- A network that starts with nothing in flight is sound in every run. -/
theorem Exchange.sound_of_run (exchange : Exchange endpoint route Local Valid)
    (initially : ∀ i, Local i start.inFlight (start.node i)) (silent : start.inFlight = [])
    (run : Run (step endpoint route) start history net) : net.Sound Local Valid := by
  apply run.invariant
  · refine ⟨initially, ?_⟩
    rw [silent]
    exact List.forall_mem_nil _
  · exact fun sound stepped => exchange.sound_step sound stepped

/-! ## Steps of one component -/

/-- The network goes on with actions of one component alone.  All that was in
flight still is, and the other components stay as they are. -/
structure Acts (endpoint : ∀ i, Endpoint (σ i) (α i) A P) (route : A → Option ι) (i : ι)
    (net net' : Network σ A P) : Prop where
  reached : Reachable (step endpoint route) net net'
  kept : net.inFlight ⊆ net'.inFlight
  others {j : ι} : j ≠ i → net'.node j = net.node j

theorem Acts.refl (i : ι) (net : Network σ A P) : Acts endpoint route i net net where
  reached := Reachable.refl _ _
  kept := List.Subset.refl _
  others _ := rfl

theorem Acts.trans {i : ι} {net'' : Network σ A P} (first : Acts endpoint route i net net')
    (second : Acts endpoint route i net' net'') : Acts endpoint route i net net'' where
  reached := first.reached.trans second.reached
  kept := List.Subset.trans first.kept second.kept
  others other := (second.others other).trans (first.others other)

theorem acts_of_next {i : ι} {action : α i} {after : σ i}
    (arrives : Arrives route net.inFlight i ((endpoint i).reads action))
    (performed : (endpoint i).next (net.node i) action = some after) :
    ∃ net', Acts endpoint route i net net' ∧ net'.node i = after ∧
      net'.inFlight = packets i ((endpoint i).writes (net.node i) action) ++ net.inFlight := by
  have stepped := step_eq_some.mpr ⟨arrives, after, performed, rfl⟩
  refine ⟨net.act i ((endpoint i).writes (net.node i) action) after, ⟨?_, ?_, ?_⟩, ?_, rfl⟩
  · exact (Reachable.refl _ _).step stepped
  · exact List.subset_append_right _ _
  · exact act_node_of_ne _ _ _ _
  · exact act_node_self _ _ _ _

/-- What a component reaches without reading, the network reaches. -/
theorem acts_of_inner {i : ι} {after : σ i}
    (reachable : Reachable (endpoint i).inner (net.node i) after) :
    ∃ net', Acts endpoint route i net net' ∧ net'.node i = after := by
  rcases reachable with ⟨history, run⟩
  induction run with
  | initial => exact ⟨net, .refl i net, rfl⟩
  | @push _ middle target action _ stepped ih =>
      rcases ih with ⟨net', earlier, rfl⟩
      rcases Endpoint.inner_eq_some.mp stepped with ⟨readsNothing, performed⟩
      have arrives : Arrives route net'.inFlight i ((endpoint i).reads action) := by
        rw [readsNothing]
        trivial
      rcases acts_of_next arrives performed with ⟨_, last, here, _⟩
      exact ⟨_, earlier.trans last, here⟩

end Network

end MainlineDht.Transition
