import Stns.Nss.Database

/-!
# When two entries build the same record

The stored bytes of the attributes and the shifted identifiers are all that a
passwd or shadow record keeps of an entry.  Two entries that agree on them
build the same record into every buffer, and no others do.
-/

namespace Stns

section Attributes

variable {record : Type}

theorem setAttrbute_congr {a a' : Attribute record}
    (hassign : a.assign = a'.assign) (hstored : a.stored = a'.stored)
    (p : Packing record) : setAttrbute a p = setAttrbute a' p := by
  have hsize : a.size = a'.size := by
    rw [← a.stored_length, ← a'.stored_length, hstored]
  unfold setAttrbute Attribute.place
  rw [hassign, hstored, hsize]

theorem setAttrbutes_congr {attrs attrs' : List (Attribute record)}
    (hassign : attrs.map Attribute.assign = attrs'.map Attribute.assign)
    (hstored : attrs.map Attribute.stored = attrs'.map Attribute.stored)
    (p : Packing record) : setAttrbutes attrs p = setAttrbutes attrs' p := by
  induction attrs generalizing attrs' p with
  | nil =>
      cases attrs' with
      | nil => rfl
      | cons a' rest' => cases hassign
  | cons a rest ih =>
      cases attrs' with
      | nil => cases hassign
      | cons a' rest' =>
          injection hassign with hhead htail
          injection hstored with hheadStored htailStored
          show (setAttrbute a p >>= setAttrbutes rest) =
            (setAttrbute a' p >>= setAttrbutes rest')
          rw [setAttrbute_congr hhead hheadStored]
          congr 1
          funext q
          exact ih htail htailStored q

/-- Rows of equal widths with the same bytes agree field by field. -/
theorem stored_eq_of_flatMap {attrs attrs' : List (Attribute record)}
    (hsize : attrs.map Attribute.size = attrs'.map Attribute.size)
    (h : attrs.flatMap Attribute.stored = attrs'.flatMap Attribute.stored) :
    attrs.map Attribute.stored = attrs'.map Attribute.stored := by
  induction attrs generalizing attrs' with
  | nil =>
      cases attrs' with
      | nil => rfl
      | cons a' rest' => cases hsize
  | cons a rest ih =>
      cases attrs' with
      | nil => cases hsize
      | cons a' rest' =>
          injection hsize with hhead htail
          rw [List.flatMap_cons, List.flatMap_cons] at h
          rcases List.append_inj h (by simp [hhead]) with ⟨hfirst, hrest⟩
          rw [List.map_cons, List.map_cons, hfirst, ih htail hrest]

theorem flatMap_stored_eq_of_mem {attrs attrs' : List (Attribute record)}
    (p p' : Packing record) (hmem : p.mem = blankMemory)
    (hmem' : p'.mem = blankMemory) (hbuf : p.buf = p'.buf)
    (h : (placeAll attrs p).mem = (placeAll attrs' p').mem) :
    attrs.flatMap Attribute.stored = attrs'.flatMap Attribute.stored := by
  rw [placeAll_mem, placeAll_mem, hmem, hmem', hbuf] at h
  have hblank : forall bytes : Bytes,
      Cell.pointer none 0 ∉ bytes.map Cell.byte := by
    intro bytes hin
    rcases List.mem_map.mp hin with ⟨b, _, hb⟩
    cases hb
  have hcells := Memory.write_injective (fun _ => rfl) (hblank _) (hblank _) h
  exact List.map_injective_iff.mpr (fun _ _ hb => Cell.byte.inj hb) hcells

end Attributes

/-!
## Passwd and shadow entries
-/

namespace Database

/-- The entries agree on everything that the record of the database keeps. -/
def SameRecord (M : Machine) (c : StnsConf) (db : Database)
    (entry entry' : Option JsonObject) : Prop :=
  match db with
  | passwd =>
      shiftedId M c.uidShift entry Key.id =
          shiftedId M c.uidShift entry' Key.id ∧
        shiftedId M c.gidShift entry Key.groupId =
          shiftedId M c.gidShift entry' Key.groupId ∧
        (passwdAttributes entry).map Attribute.stored =
          (passwdAttributes entry').map Attribute.stored
  | group => False
  | spwd =>
      (shadowAttributes entry).map Attribute.stored =
        (shadowAttributes entry').map Attribute.stored

end Database

theorem passwdEnsure_eq_iff {M : Machine} {c : StnsConf}
    {entry entry' : Option JsonObject} :
    (forall p, passwdEnsure M c entry p = passwdEnsure M c entry' p) <->
      Database.passwd.SameRecord M c entry entry' := by
  constructor
  · intro h
    let room := attributesSize (passwdAttributes entry) +
      attributesSize (passwdAttributes entry')
    let p := Database.passwd.blankPacking room
    have hp := h p
    rw [passwdEnsure_ok (by show _ <= room; omega),
      passwdEnsure_ok (by show _ <= room; omega)] at hp
    have hrbuf := congrArg Reply.rbuf hp
    have hmem := congrArg Reply.mem hp
    have hflat := flatMap_stored_eq_of_mem
      { p with rbuf := passwdIds M c entry p.rbuf }
      { p with rbuf := passwdIds M c entry' p.rbuf } rfl rfl rfl hmem
    have hlength := congrArg List.length hflat
    rw [flatMap_stored_length, flatMap_stored_length] at hlength
    -- the pointers of the first four fields fix their widths, the total
    -- length the last one
    have huid := congrArg Passwd.pwUid hrbuf
    have hgid := congrArg Passwd.pwGid hrbuf
    have hwidth1 := congrArg Passwd.pwPasswd hrbuf
    have hwidth2 := congrArg Passwd.pwGecos hrbuf
    have hwidth3 := congrArg Passwd.pwDir hrbuf
    have hwidth4 := congrArg Passwd.pwShell hrbuf
    refine ⟨huid, hgid, stored_eq_of_flatMap ?_ hflat⟩
    simp only [Packing.reply, passwdAttributes, placeAll_cons, placeAll_nil,
      Attribute.place] at hwidth1 hwidth2 hwidth3 hwidth4
    simp only [passwdAttributes, attributesSize_cons,
      attributesSize_nil] at hlength
    simp only [passwdAttributes, List.map_cons, List.map_nil, List.cons.injEq,
      and_true, true_and]
    omega
  · intro hsame p
    rcases hsame with ⟨huid, hgid, hstored⟩
    have hids : passwdIds M c entry p.rbuf = passwdIds M c entry' p.rbuf := by
      unfold passwdIds
      rw [huid, hgid]
    have hassign : (passwdAttributes entry).map Attribute.assign =
        (passwdAttributes entry').map Attribute.assign := rfl
    unfold passwdEnsure
    rw [setAttrbutes_congr hassign hstored, hids]

theorem shadowEnsure_eq_iff {M : Machine} {c : StnsConf}
    {entry entry' : Option JsonObject} :
    (forall p, shadowEnsure entry p = shadowEnsure entry' p) <->
      Database.spwd.SameRecord M c entry entry' := by
  constructor
  · intro h
    let room := attributesSize (shadowAttributes entry) +
      attributesSize (shadowAttributes entry')
    let p := Database.spwd.blankPacking room
    have hp := h p
    rw [shadowEnsure_ok (by show _ <= room; omega),
      shadowEnsure_ok (by show _ <= room; omega)] at hp
    have hrbuf := congrArg Reply.rbuf hp
    have hmem := congrArg Reply.mem hp
    have hflat := flatMap_stored_eq_of_mem p p rfl rfl rfl hmem
    have hlength := congrArg List.length hflat
    rw [flatMap_stored_length, flatMap_stored_length] at hlength
    have hwidth1 := congrArg Spwd.spPwdp hrbuf
    refine stored_eq_of_flatMap ?_ hflat
    simp only [Packing.reply, shadowAging, shadowAttributes, placeAll_cons,
      placeAll_nil, Attribute.place] at hwidth1
    simp only [shadowAttributes, attributesSize_cons,
      attributesSize_nil] at hlength
    simp only [shadowAttributes, List.map_cons, List.map_nil,
      List.cons.injEq, and_true]
    omega
  · intro hstored p
    have hassign : (shadowAttributes entry).map Attribute.assign =
        (shadowAttributes entry').map Attribute.assign := rfl
    unfold shadowEnsure
    rw [setAttrbutes_congr hassign hstored]

end Stns
