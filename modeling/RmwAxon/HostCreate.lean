import RmwAxon.HostFrame

namespace RmwAxon.HostCreate

open Qos Session Segment Host Function
open RingBuffer (markGeneration)

def attached (x : Machine) (i seg : Nat) (shm : Shm) : Machine :=
  let p := x.processes i
  ⟨shm, update x.processes i
    { p with
      opened := p.opened + 1
      handles := update p.handles p.opened ⟨seg, fun _ => none, fun _ => none⟩ }⟩

inductive Attach (os : Os) (x : Machine) (i : Nat) (existing : Option Nat) (t depth slotSize : Nat) :
    Nat → Machine → Prop
  | reuse {h : Nat} : reused (world x i) existing slotSize = some h →
      Attach os x i existing t depth slotSize h x
  | fresh {seg : Nat} {shm : Shm} : reused (world x i) existing slotSize = none →
      createOrOpen os x.shm t depth slotSize = (.ok seg, shm) →
      Attach os x i existing t depth slotSize (x.processes i).opened (attached x i seg shm)

def Failed (x x' : Machine) (t : Nat) : Prop := x' = x ∨ x' = { x with shm := unlink x.shm t }

theorem put_world (x : Machine) (i : Nat) : put x i (world x i) = x := by
  simp [put, world, update_eq_self]

variable {os : Os} {t depth slotSize h i : Nat} {e : String} {w : World} {existing env : Option Nat}
    {x x₁ : Machine} {topic : Topic} {qos : QosProfile} {opened : Opened}

theorem createOrOpen_error {s shm : Shm} (h : createOrOpen os s t depth slotSize = (.error e, shm)) :
    shm = s ∨ shm = unlink s t := by
  cases h ▸ createOrOpen_cases os s t depth slotSize with
  | failed => exact .inl rfl
  | removed => exact .inr rfl

theorem createOrOpen_rings {s shm : Shm} {r : Except String Nat}
    (h : createOrOpen os s t depth slotSize = (r, shm)) {seg : Nat} (hseg : seg < s.created) :
    shm.rings seg = s.rings seg := by
  cases h ▸ createOrOpen_cases os s t depth slotSize with
  | failed | removed | found => rfl
  | made => exact update_of_ne (Nat.ne_of_lt hseg) _ _

theorem reused_congr {w' : World} (slotSize : Nat) (h : ∀ k, existing = some k → ringOf w' k = ringOf w k) :
    reused w' existing slotSize = reused w existing slotSize := by
  cases existing with
  | none => rfl
  | some k => simp only [reused, Option.filter_some, h k rfl]

theorem chooseHandle_unused (hr : reused w existing slotSize = none) (opened : Opened) :
    chooseHandle w existing slotSize opened = opened.map fun p => (p.1, { w with
      handles := update w.handles p.1 ⟨p.2, fun _ => none, fun _ => none⟩ }) := by
  simp only [reused] at hr
  simp only [chooseHandle, hr]
  cases opened <;> rfl

theorem openChannel_cases (os : Os) (x : Machine) (i : Nat) (t depth slotSize : Nat)
    (hex : ∀ k, existing = some k → ((x.processes i).handles k).segment < x.shm.created) :
    (∃ e x', openChannel os x i existing t depth slotSize = (.error e, x') ∧ Failed x x' t ∧
      chooseHandle (world x' i) existing slotSize (.error e) = .error e ∧
      (x'.processes i).tables = (x.processes i).tables) ∨
    ∃ opened x' h x₁, openChannel os x i existing t depth slotSize = (opened, x') ∧
      Attach os x i existing t depth slotSize h x₁ ∧
      chooseHandle (world x' i) existing slotSize opened = .ok (h, world x₁ i) ∧
      (x'.processes i).tables = (x.processes i).tables ∧ ∀ w, put x' i w = put x₁ i w := by
  unfold openChannel
  cases hr : reused (world x i) existing slotSize with
  | some h =>
    refine .inr ⟨_, _, h, x, rfl, .reuse hr, ?_, rfl, fun _ => rfl⟩
    simp only [reused] at hr
    simp only [chooseHandle, hr]
  | none =>
    simp only
    rcases ho : createOrOpen os x.shm t depth slotSize with ⟨e | seg, shm⟩
    · left
      refine ⟨e, _, rfl, ?_, ?_, rfl⟩
      · rcases createOrOpen_error ho with rfl | rfl
        · exact .inl rfl
        · exact .inr rfl
      rw [chooseHandle_unused]
      · rfl
      · rw [← hr]
        exact reused_congr slotSize fun k hk => createOrOpen_rings ho (hex k hk)
    · right
      refine ⟨_, _, _, _, rfl, .fresh hr ho, ?_, by simp, fun w => by simp [put, attached]⟩
      rw [chooseHandle_unused]
      · simp [Except.map, world, attached]
      rw [← hr]
      refine reused_congr slotSize fun k hk => ?_
      simp only [ringOf, world, update_self]
      exact createOrOpen_rings ho (hex k hk)

def marked (w : World) (h : Nat) (first : Bool) : World :=
  if first then setRing w h (markGeneration (ringOf w h)) else w

def isFirst (x : Machine) (i t : Nat) : Bool := ((x.processes i).tables.publishers t).isNone

theorem attach_tables (ha : Attach os x i existing t depth slotSize h x₁) :
    (x₁.processes i).tables = (x.processes i).tables := by
  cases ha with
  | reuse => rfl
  | fresh => simp [attached]

theorem put_tables (x : Machine) (i : Nat) (w : World) (j : Nat) :
    ((put x i w).processes j).tables = if j = i then w.session else (x.processes j).tables := by
  simp only [put, update_apply]
  split_ifs <;> rfl

theorem attach_tables_put (ha : Attach os x i existing t depth slotSize h x₁) (w : World) (j : Nat) :
    ((put x₁ i w).processes j).tables = if j = i then w.session else (x.processes j).tables := by
  rw [put_tables]
  split_ifs with hj
  · rfl
  · cases ha with
    | reuse => rfl
    | fresh => simp [attached, hj]

theorem createPublisher_error (hc : chooseHandle w (existingPublisher w.session topic.hash)
      (slotSizeFor env topic qos) opened = .error e) :
    Session.createPublisher w env topic qos opened = (.error (.createPublisher e), w) := by
  unfold existingPublisher at hc
  simp only [Session.createPublisher, hc]

theorem createPublisher_ok {w₁ : World} (hc : chooseHandle w (existingPublisher w.session topic.hash)
      (slotSizeFor env topic qos) opened = .ok (h, w₁)) :
    Session.createPublisher w env topic qos opened =
      (.ok (), { marked w₁ h (w₁.session.publishers topic.hash).isNone with
        session := addPublisher w₁.session topic.hash qos h }) := by
  unfold existingPublisher at hc
  simp only [Session.createPublisher, hc, marked]
  split_ifs <;> rfl

theorem createPublisher_cases (os : Os) (env : Option Nat) (x : Machine) (i : Nat) (topic : Topic)
    (qos : QosProfile) (hex : ∀ k, existingPublisher (x.processes i).tables topic.hash = some k →
      ((x.processes i).handles k).segment < x.shm.created) :
    (∃ e x', Host.createPublisher os env x i topic qos = (.error e, x') ∧ Failed x x' topic.hash) ∨
    ∃ h x₁, Attach os x i (existingPublisher (x.processes i).tables topic.hash) topic.hash
        (topicRingDepth topic qos) (slotSizeFor env topic qos) h x₁ ∧
      Host.createPublisher os env x i topic qos = (.ok (), put x₁ i
        { marked (world x₁ i) h (isFirst x i topic.hash) with
          session := addPublisher (x.processes i).tables topic.hash qos h }) := by
  unfold Host.createPublisher
  rcases openChannel_cases os x i topic.hash (topicRingDepth topic qos) (slotSizeFor env topic qos)
    hex with ⟨e, x', ho, hf, hc, ht⟩ | ⟨opened, x', h, x₁, ho, ha, hc, ht, hput⟩
  · rw [← ht] at hc
    simp only [ho, createPublisher_error hc, put_world]
    exact .inl ⟨_, _, rfl, hf⟩
  have hs : (world x₁ i).session = (x.processes i).tables := attach_tables ha
  rw [← ht] at hc
  simp only [ho, createPublisher_ok hc, hs, hput]
  exact .inr ⟨h, x₁, ha, rfl⟩

theorem createSubscription_error {allowed : Bool} (hallow : ¬ allowed = false)
    (hc : chooseHandle w (existingSubscription w.session topic.hash) (slotSizeFor env topic qos)
      opened = .error e) :
    Session.createSubscription w env allowed topic qos opened = (.error (.createSubscription e), w) := by
  unfold existingSubscription at hc
  simp only [Session.createSubscription, if_neg hallow, hc]

theorem createSubscription_found {w₁ : World} {allowed : Bool} (hallow : ¬ allowed = false)
    (hc : chooseHandle w (existingSubscription w.session topic.hash) (slotSizeFor env topic qos)
      opened = .ok (h, w₁)) :
    Session.createSubscription w env allowed topic qos opened = (.ok (initialSeq (ringOf w₁ h) qos), { w₁ with
        session := addSubscription w₁.session topic qos h (initialSeq (ringOf w₁ h) qos) }) := by
  unfold existingSubscription at hc
  simp only [Session.createSubscription, if_neg hallow, hc]

theorem createSubscription_cases (os : Os) (env : Option Nat) (allowed : Bool) (x : Machine) (i : Nat)
    (topic : Topic) (qos : QosProfile)
    (hex : ∀ k, existingSubscription (x.processes i).tables topic.hash = some k →
      ((x.processes i).handles k).segment < x.shm.created) :
    (∃ e x', Host.createSubscription os env allowed x i topic qos = (.error e, x') ∧ Failed x x' topic.hash) ∨
    ∃ h x₁, Attach os x i (existingSubscription (x.processes i).tables topic.hash) topic.hash
        (topicRingDepth topic qos) (slotSizeFor env topic qos) h x₁ ∧
      Host.createSubscription os env allowed x i topic qos =
        (.ok (initialSeq (ringOf (world x₁ i) h) qos), put x₁ i { world x₁ i with
          session := addSubscription (x.processes i).tables topic qos h
            (initialSeq (ringOf (world x₁ i) h) qos) }) := by
  unfold Host.createSubscription
  by_cases hallow : allowed = false
  · rw [if_pos hallow]
    exact .inl ⟨_, x, rfl, .inl rfl⟩
  rw [if_neg hallow]
  rcases openChannel_cases os x i topic.hash (topicRingDepth topic qos) (slotSizeFor env topic qos)
    hex with ⟨e, x', ho, hf, hc, ht⟩ | ⟨opened, x', h, x₁, ho, ha, hc, ht, hput⟩
  · rw [← ht] at hc
    simp only [ho, createSubscription_error hallow hc, put_world]
    exact .inl ⟨_, _, rfl, hf⟩
  have hs : (world x₁ i).session = (x.processes i).tables := attach_tables ha
  rw [← ht] at hc
  simp only [ho, createSubscription_found hallow hc, hs, hput]
  exact .inr ⟨h, x₁, ha, rfl⟩

end RmwAxon.HostCreate
