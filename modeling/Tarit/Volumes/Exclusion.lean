import Tarit.Fleet.Records

/-!
# The fence of one volume

What the attachments of one volume must be, whichever store keeps them: none while the
volume is being deleted or is gone, and no other one next to a read-write attachment unless
the volume is read-write-many. The changes the stores make to a volume and its attachments
keep it under the conditions they check.
-/
namespace Tarit.Volumes

open Fleet

variable {volume : Option VolumeRecord}
  {attached attached' : Uuid → Option VmVolumeAttachmentRecord}

/-- `attached` are the attachments of the volume by VM. -/
structure Exclusive (volume : Option VolumeRecord)
    (attached : Uuid → Option VmVolumeAttachmentRecord) : Prop where
  live : ∀ vm_id attachment, attached vm_id = some attachment →
    ∃ v, volume = some v ∧ v.status ≠ .Deleting
  single_writer : ∀ v, volume = some v → v.capabilities.read_write_many = false →
    ∀ vm_id attachment, attached vm_id = some attachment → attachment.mode = .ReadWrite →
      ∀ vm_id' attachment', attached vm_id' = some attachment' → vm_id' = vm_id

def Conflicting (attachment attachment' : VmVolumeAttachmentRecord) : Prop :=
  attachment.mode = .ReadWrite ∨ attachment'.mode = .ReadWrite

theorem Exclusive.detach (h : Exclusive volume attached)
    (hattached : ∀ vm_id attachment, attached' vm_id = some attachment →
      attached vm_id = some attachment) : Exclusive volume attached' where
  live vm_id attachment ha := h.live vm_id attachment (hattached _ _ ha)
  single_writer v hv hmany vm_id attachment ha hmode vm_id' attachment' ha' :=
    h.single_writer v hv hmany vm_id attachment (hattached _ _ ha) hmode vm_id' attachment'
      (hattached _ _ ha')

theorem exclusive_of_unattached
    (h : ∀ vm_id, attached vm_id = none) : Exclusive volume attached where
  live vm_id _ ha := by
    rw [h vm_id] at ha
    cases ha
  single_writer _ _ _ vm_id _ ha := by
    rw [h vm_id] at ha
    cases ha

theorem Exclusive.unattached (h : Exclusive none attached) (vm_id : Uuid) :
    attached vm_id = none := by
  cases ha : attached vm_id with
  | none => rfl
  | some attachment =>
    obtain ⟨v, hv, _⟩ := h.live vm_id attachment ha
    cases hv

/-- A volume may change in any way but its access modes, as long as it is not deleted. -/
theorem Exclusive.change {v v' : VolumeRecord} (h : Exclusive (some v) attached)
    (hstatus : v'.status ≠ .Deleting) (hcapabilities : v'.capabilities = v.capabilities) :
    Exclusive (some v') attached where
  live vm_id attachment _ := ⟨v', rfl, hstatus⟩
  single_writer w hw hmany := by
    cases hw
    rw [hcapabilities] at hmany
    exact h.single_writer v rfl hmany

theorem Exclusive.attach {v : VolumeRecord} {vm_id : Uuid} {attachment : VmVolumeAttachmentRecord}
    (h : Exclusive (some v) attached) (hstatus : v.status ≠ .Deleting)
    (hconflict : v.capabilities.read_write_many = true ∨
      ∀ vm_id' attachment', attached vm_id' = some attachment' →
        ¬ Conflicting attachment attachment')
    (hattached : ∀ vm_id' attachment', attached' vm_id' = some attachment' →
      vm_id' = vm_id ∧ attachment' = attachment ∨ attached vm_id' = some attachment') :
    Exclusive (some v) attached' where
  live _ _ _ := ⟨v, rfl, hstatus⟩
  single_writer w hw hmany vm₁ a₁ h₁ hmode vm₂ a₂ h₂ := by
    cases hw
    obtain hrwm | hfree := hconflict
    · rw [hrwm] at hmany
      cases hmany
    obtain ⟨rfl, rfl⟩ | h₁ := hattached vm₁ a₁ h₁
    · obtain ⟨rfl, _⟩ | h₂ := hattached vm₂ a₂ h₂
      · rfl
      · exact absurd (.inl hmode) (hfree vm₂ a₂ h₂)
    · obtain ⟨_, rfl⟩ | h₂ := hattached vm₂ a₂ h₂
      · exact absurd (.inr hmode) (hfree vm₁ a₁ h₁)
      · exact h.single_writer v rfl hmany vm₁ a₁ h₁ hmode vm₂ a₂ h₂

end Tarit.Volumes
