import RmwAxon.HostOnward

namespace RmwAxon.HostEpoch

open Compress Session Segment Host HostFrame HostCreate HostInv HostOnward Function Loan
open RingBuffer (Bytes Ring)

def SameEpochs (rings' rings : Nat → Ring) : Prop := ∀ g, (rings' g).epoch = (rings g).epoch

theorem SameEpochs.refl (rings : Nat → Ring) : SameEpochs rings rings := fun _ => rfl

theorem setRing_epochs {w : World} {h : Nat} {m : Ring} (hm : m.epoch = (ringOf w h).epoch) :
    SameEpochs (setRing w h m).rings w.rings := by
  intro g
  simp only [setRing, update_apply]
  split_ifs with hg
  · rw [hg]
    exact hm
  · rfl

theorem write_epoch (m : Ring) (data : Bytes) : (RingBuffer.write m data).2.epoch = m.epoch := by
  rcases Nat.lt_or_ge (RingBuffer.payloadCapacity m) data.length with hbig | hfit
  · rw [RingHistory.write_refused hbig]
  · obtain ⟨r, hr⟩ := RingHistory.write_accepted hfit
    rw [hr, RingBuffer.fillSlot_eq]
    rfl

theorem received_epochs {w w' : World} {t : Nat} (hr : SessionFrame.Received w t w') :
    SameEpochs w'.rings w.rings := by
  cases hr with
  | same => exact .refl _
  | @read h r hh =>
    refine setRing_epochs (w := pruneTopic w t h _) ?_
    rw [ringOf, ringOf, pruneTopic_segment]
    rfl

theorem receive_epochs (codec : Codec) (w : World) (now t seq : Nat) (out : Bytes) :
    SameEpochs (ReceiveBySeq.receive codec w now t seq out).2.2.rings w.rings := by
  rcases receive_cases codec w now t seq out with ⟨p, r, out', q, _, _, he⟩ | hr
  · rw [he]
    exact .refl _
  · exact received_epochs hr

theorem publishWithGid_epochs (w : World) (t now : Nat) (data : Bytes) (gid : Nat) :
    SameEpochs (Session.publishWithGid w t now data gid).2.rings w.rings := by
  rcases publishWithGid_cases w t now data gid with ⟨e, he⟩ | ⟨h, r, gids, _, hw, he⟩
  · rw [he]
    exact .refl _
  have hr : r.epoch = (ringOf w h).epoch := by
    have := write_epoch (ringOf w h) data
    rwa [hw] at this
  rcases he with he | he <;> rw [he] <;> exact setRing_epochs hr

theorem borrowLoaned_epochs (x : Machine) (i t n : Nat) :
    SameEpochs (Host.borrowLoaned x i t n).2.shm.rings x.shm.rings := by
  unfold Host.borrowLoaned
  split
  · exact .refl _
  rename_i h _
  refine setRing_epochs (w := world x i) ?_
  rcases borrowBuffer_cases (ringOf (world x i) h) ((x.processes i).loans h) n with he | he
  · rw [he]
  · rw [he]
    rfl

theorem commitLoaned_epochs (x : Machine) (i t ptr size : Nat) :
    SameEpochs (Host.commitLoaned x i t ptr size).2.shm.rings x.shm.rings := by
  unfold Host.commitLoaned
  split
  · exact .refl _
  rename_i h _
  refine setRing_epochs (w := world x i) ?_
  rcases commitBuffer_cases (ringOf (world x i) h) ((x.processes i).loans h) ptr size with
    he | ⟨s, _, _, he⟩
  · rw [he]
  · rw [he]
    rfl

def LoansBelow (x : Machine) : Prop :=
  ∀ i h ptr s, (x.processes i).loans h ptr = some s → h < (x.processes i).opened ∧
    s < (x.shm.rings ((x.processes i).handles h).segment).writeIndex

theorem loansBelow_of_onward {x x' : Machine} (hx : AllTidy x) (h : LoansBelow x) (ho : Onward x' x)
    (hl : ∀ i k ptr s, (x'.processes i).loans k ptr = some s → (x.processes i).loans k ptr = some s ∨
      (k < (x.processes i).opened ∧
        s < (x'.shm.rings ((x.processes i).handles k).segment).writeIndex)) : LoansBelow x' := by
  intro i k ptr s hs
  rcases hl i k ptr s hs with hs | ⟨hk, hlt⟩
  · obtain ⟨hk, hlt⟩ := h i k ptr s hs
    refine ⟨hk.trans_le (ho.opened i), ?_⟩
    rw [ho.segments i k hk]
    exact hlt.trans_le (ho.rings _ ((hx i).created k hk)).writeIndex
  · refine ⟨hk.trans_le (ho.opened i), ?_⟩
    rwa [ho.segments i k hk]

theorem put_loans (x : Machine) (i : Nat) (w : World) (j : Nat) :
    ((put x i w).processes j).loans = (x.processes j).loans := by
  simp only [put, update_apply]
  split_ifs with hj
  · rw [hj]
  · rfl

theorem setLoans_loans (x : Machine) (i h : Nat) (loans : LocalPubSub.Loans) (j k : Nat) :
    ((setLoans x i h loans).processes j).loans k =
      if j = i ∧ k = h then loans else (x.processes j).loans k := by
  simp only [setLoans, update_apply]
  by_cases hj : j = i
  · by_cases hk : k = h <;> simp [hj, hk]
  · simp [hj]

theorem borrowLoaned_loansBelow {x : Machine} (hx : AllTidy x) (h : LoansBelow x) (i t n : Nat) :
    LoansBelow (Host.borrowLoaned x i t n).2 := by
  refine loansBelow_of_onward hx h (change_onward (r := none) (.quiet (borrowLoaned_quiet x i t n)))
    fun j k ptr s hs => ?_
  unfold Host.borrowLoaned at hs ⊢
  cases hp : (x.processes i).tables.publishers t with
  | none =>
    simp only [hp] at hs
    exact .inl hs
  | some k' =>
    simp only [hp] at hs ⊢
    rw [setLoans_loans, put_loans] at hs
    split_ifs at hs with hjk
    · obtain ⟨rfl, rfl⟩ := hjk
      rcases borrowBuffer_cases (ringOf (world x j) k) ((x.processes j).loans k) n with he | he
      · rw [he] at hs
        exact .inl hs
      rw [he] at hs ⊢
      simp only [update_apply] at hs
      split_ifs at hs
      · cases hs
        refine .inr ⟨(hx j).named t k (.inl hp), ?_⟩
        simp only [setLoans, put, setRing, world, update_self]
        exact Nat.lt_succ_self _
      · exact .inl hs
    · exact .inl hs

theorem commitLoaned_loans {x : Machine} {i t ptr size j k p s : Nat}
    (hs : ((Host.commitLoaned x i t ptr size).2.processes j).loans k p = some s) :
    (x.processes j).loans k p = some s := by
  unfold Host.commitLoaned at hs
  cases hp : (x.processes i).tables.publishers t with
  | none =>
    simp only [hp] at hs
    exact hs
  | some k' =>
    simp only [hp] at hs
    rw [setLoans_loans, put_loans] at hs
    split_ifs at hs with hjk
    · obtain ⟨rfl, rfl⟩ := hjk
      rcases commitBuffer_cases (ringOf (world x j) k) ((x.processes j).loans k) ptr size with
        he | ⟨v, _, _, he⟩
      · rw [he] at hs
        exact hs
      rw [he] at hs
      simp only [update_apply] at hs
      split_ifs at hs
      exact hs
    · exact hs

end RmwAxon.HostEpoch
