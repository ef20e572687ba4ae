import FilterReduce.ArrayMap
import FilterReduce.RunTrace

/-!
# `sock_kern.c`

The socket filter that counts outgoing packets by protocol. Every processor runs it on
packets of its own, and the calls into the map are the points at which they interleave.
What keeps the counts right is that the element is never reset, although each run asks for
that, and that it is incremented in place and atomically.
-/
namespace FilterReduce.SockKern
open RunTrace

/-- A packet: its bytes from the Ethernet header on, and `pkt_type`. -/
structure Skb where
  data : List UInt8
  pktType : ℕ

def packetOutgoing : ℕ := 4

def ethHlen : ℕ := 14

def protocolOffset : ℕ := 9

inductive Cpu
  | idle
  /-- before `bpf_map_update_elem` -/
  | init (proto : UInt8)
  /-- before `bpf_map_lookup_elem` -/
  | find (proto : UInt8)
  /-- before `__sync_fetch_and_add`, with the pointer that the lookup gave -/
  | add (proto : UInt8)
  deriving DecidableEq

/-- The start of the program. `load_byte` ends it if the packet is too short. -/
def enter (skb : Skb) : Cpu :=
  match skb.data[ethHlen + protocolOffset]? with
  | none => .idle
  | some proto => if skb.pktType ≠ packetOutgoing then .idle else .init proto

/-- `bpf_map_update_elem` with `BPF_NOEXIST`, on a map whose elements all exist. -/
def updateNoexist (m : ArrayMap UInt64 256) (key : ℕ) (_value : UInt64) :
    ℤ × ArrayMap UInt64 256 :=
  if key < 256 then (-17, m) else (-7, m)

def fetchAndAdd (m : ArrayMap UInt64 256) (key : ℕ) (value : UInt64) : ArrayMap UInt64 256 :=
  ⟨fun i => if i.val = key then m.elems i + value else m.elems i, m.updates⟩

variable {n : ℕ}

structure State (n : ℕ) where
  myMap : ArrayMap UInt64 256
  cpus : Fin n → Cpu

inductive Event (n : ℕ)
  | packet (cpu : Fin n) (skb : Skb)
  | run (cpu : Fin n)

namespace State

def moveTo (s : State n) (cpu : Fin n) (c : Cpu) : State n :=
  { s with cpus := Function.update s.cpus cpu c }

def counter (s : State n) (proto : UInt8) : UInt64 := s.myMap.elems ⟨proto.toNat, proto.toNat_lt⟩

end State

def advance (s : State n) (cpu : Fin n) : State n :=
  match s.cpus cpu with
  | .idle => s
  | .init proto =>
    { s with myMap := (updateNoexist s.myMap proto.toNat 0).2 }.moveTo cpu (.find proto)
  | .find proto =>
    match s.myMap.lookup proto.toNat with
    | none => s.moveTo cpu .idle
    | some _ => s.moveTo cpu (.add proto)
  | .add proto => { s with myMap := fetchAndAdd s.myMap proto.toNat 1 }.moveTo cpu .idle

/-- A packet is taken by a processor that runs no filter. -/
def step (s : State n) : Event n → State n
  | .packet cpu skb => if s.cpus cpu = .idle then s.moveTo cpu (enter skb) else s
  | .run cpu => advance s cpu

/-- The protocol of the packet that a processor has taken and not yet counted. -/
def Cpu.pending : Cpu → Option UInt8
  | .idle => none
  | .init proto | .find proto | .add proto => some proto

def weight (proto : UInt8) (c : Cpu) : ℕ := if c.pending = some proto then 1 else 0

def State.inFlight (s : State n) (proto : UInt8) : ℕ := ∑ cpu, weight proto (s.cpus cpu)

/-- An outgoing packet of a protocol, by the header it carries. -/
def Skb.IsOutgoing (skb : Skb) (proto : UInt8) : Prop :=
  skb.pktType = packetOutgoing ∧ skb.data[ethHlen + protocolOffset]? = some proto

instance (skb : Skb) (proto : UInt8) : Decidable (skb.IsOutgoing proto) :=
  inferInstanceAs (Decidable (_ ∧ _))

/-- The event hands such a packet to a processor that is free to take it. -/
def arrives (proto : UInt8) : State n × Event n → Bool
  | (s, .packet cpu skb) => s.cpus cpu = .idle ∧ skb.IsOutgoing proto
  | (_, .run _) => false

lemma pending_enter (skb : Skb) (proto : UInt8) :
    (enter skb).pending = some proto ↔ skb.IsOutgoing proto := by
  rw [enter, Skb.IsOutgoing]
  cases skb.data[ethHlen + protocolOffset]? with
  | none => simp [Cpu.pending]
  | some own =>
    by_cases htype : skb.pktType = packetOutgoing
    · simp [Cpu.pending, htype]
    · simp [Cpu.pending, htype]

section Step

variable (s : State n) (cpu : Fin n) (proto : UInt8)

@[simp] lemma counter_moveTo (c : Cpu) : (s.moveTo cpu c).counter proto = s.counter proto := rfl

lemma inFlight_moveTo (c : Cpu) :
    (s.moveTo cpu c).inFlight proto + weight proto (s.cpus cpu) =
      s.inFlight proto + weight proto c := by
  have hother : ∑ x ∈ Finset.univ.erase cpu, weight proto ((s.moveTo cpu c).cpus x) =
      ∑ x ∈ Finset.univ.erase cpu, weight proto (s.cpus x) := by
    refine Finset.sum_congr rfl fun x hx => ?_
    exact congrArg (weight proto) (Function.update_of_ne (Finset.ne_of_mem_erase hx) _ _)
  have hself : (s.moveTo cpu c).cpus cpu = c := Function.update_self ..
  rw [State.inFlight, State.inFlight, ← Finset.sum_erase_add _ _ (Finset.mem_univ cpu),
    ← Finset.sum_erase_add Finset.univ (fun x => weight proto (s.cpus x)) (Finset.mem_univ cpu),
    hother, hself]
  omega

lemma updateNoexist_map (m : ArrayMap UInt64 256) (key : ℕ) (value : UInt64) :
    (updateNoexist m key value).2 = m := by
  rw [updateNoexist]
  split <;> rfl

lemma counter_fetchAndAdd (own : UInt8) :
    ({ s with myMap := fetchAndAdd s.myMap own.toNat 1 } : State n).counter proto =
      s.counter proto + UInt64.ofNat (weight proto (.add own)) := by
  by_cases h : own = proto
  · simp [State.counter, fetchAndAdd, weight, Cpu.pending, h]
  · have hne : proto.toNat ≠ own.toNat := fun he => h (UInt8.toNat_inj.mp he.symm)
    simp [State.counter, fetchAndAdd, weight, Cpu.pending, h, hne]

def State.account : UInt64 := s.counter proto + UInt64.ofNat (s.inFlight proto)

lemma account_moveTo {c : Cpu} (h : weight proto c = weight proto (s.cpus cpu)) :
    (s.moveTo cpu c).account proto = s.account proto := by
  have hflight := inFlight_moveTo s cpu proto c
  rw [State.account, counter_moveTo, State.account,
    show (s.moveTo cpu c).inFlight proto = s.inFlight proto by omega]

/-- No call of a processor changes the account: an increment moves a packet from one side
of it to the other. -/
lemma account_advance : (advance s cpu).account proto = s.account proto := by
  rw [advance]
  cases hcpu : s.cpus cpu with
  | idle => rfl
  | init own =>
    simp only [updateNoexist_map]
    exact account_moveTo s cpu proto (by rw [hcpu]; rfl)
  | find own =>
    have hfound : s.myMap.lookup own.toNat = some (s.counter own) := by
      rw [ArrayMap.lookup, dif_pos own.toNat_lt]
      rfl
    simp only [hfound]
    exact account_moveTo s cpu proto (by rw [hcpu]; rfl)
  | add own =>
    have hflight := inFlight_moveTo s cpu proto .idle
    rw [hcpu, show weight proto .idle = 0 from rfl, Nat.add_zero] at hflight
    rw [State.account, counter_moveTo, counter_fetchAndAdd, State.account, ← hflight,
      UInt64.ofNat_add, UInt64.add_assoc, UInt64.add_comm (UInt64.ofNat (weight _ _))]
    rfl

lemma account_step (e : Event n) :
    (step s e).account proto =
      s.account proto + UInt64.ofNat (if arrives proto (s, e) then 1 else 0) := by
  cases e with
  | run cpu =>
    rw [step, account_advance, arrives, if_neg (by simp)]
    exact (UInt64.add_zero _).symm
  | packet cpu skb =>
    rw [step, arrives]
    by_cases hidle : s.cpus cpu = .idle
    · have hflight := inFlight_moveTo s cpu proto (enter skb)
      rw [hidle, show weight proto .idle = 0 from rfl, Nat.add_zero, weight] at hflight
      simp only [pending_enter] at hflight
      rw [if_pos hidle, State.account, counter_moveTo, hflight, UInt64.ofNat_add,
        ← UInt64.add_assoc]
      simp only [hidle, true_and, decide_eq_true_eq]
      rfl
    · rw [if_neg hidle, if_neg (by simp [hidle])]
      exact (UInt64.add_zero _).symm

end Step

/-- No packet is lost or counted twice, however the processors interleave: what a counter
gained, together with the packets still on their way, is the number of outgoing packets of
that protocol. With all processors idle again the counter alone is exact. -/
theorem counts_every_packet (s : State n) (es : List (Event n)) (proto : UInt8) :
    let t := run step s es
    let arrived := (visits step s es).countP (arrives proto)
    t.counter proto + UInt64.ofNat (t.inFlight proto) =
        s.counter proto + UInt64.ofNat (s.inFlight proto) + UInt64.ofNat arrived ∧
      ((∀ cpu, s.cpus cpu = .idle) → (∀ cpu, t.cpus cpu = .idle) →
        t.counter proto = s.counter proto + UInt64.ofNat arrived) := by
  have hrun : (run step s es).account proto = s.account proto +
      UInt64.ofNat ((visits step s es).countP (arrives proto)) := by
    induction es generalizing s with
    | nil => exact (UInt64.add_zero _).symm
    | cons e es ih =>
      rw [run_cons, ih, account_step, visits_cons, List.countP_cons, UInt64.add_assoc,
        ← UInt64.ofNat_add, Nat.add_comm]
  refine ⟨hrun, fun hs ht => ?_⟩
  have hnone : ∀ u : State n, (∀ cpu, u.cpus cpu = .idle) → u.account proto = u.counter proto := by
    intro u hu
    have hzero : u.inFlight proto = 0 := Finset.sum_eq_zero fun cpu _ => by rw [hu cpu]; rfl
    rw [State.account, hzero]
    exact UInt64.add_zero _
  rw [hnone _ hs, hnone _ ht] at hrun
  exact hrun

theorem counts_every_packet_two :
    let skb : Skb := ⟨List.replicate 23 0 ++ [1], packetOutgoing⟩
    let s : State 2 := ⟨ArrayMap.fill 0, fun _ => .idle⟩
    let es : List (Event 2) := [.packet 0 skb, .packet 1 skb, .run 0, .run 1, .run 0, .run 1,
      .run 0, .run 1]
    (run step s es).counter 1 = 2 := by
  intro skb s es
  have h := (counts_every_packet s es 1).2 (fun _ => rfl) (by decide)
  rw [h]
  decide

end FilterReduce.SockKern
