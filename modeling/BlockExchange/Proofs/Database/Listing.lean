import BlockExchange.Proofs.Database.Represents

namespace BlockExchange

theorem Database.MarkerRow.compare_ofMarker (a b : Marker) :
    (compare (ofMarker a).folder (ofMarker b).folder).then
      (compare (ofMarker a).device (ofMarker b).device) = compare a.key b.key := by
  simp only [ofMarker, DeviceId.compare_toHex]
  rfl

theorem DeviceId.texts_correspond :
    (∀ text, (∃ id, ofHex text = .ok id) ↔ IsText text) ∧
      (∀ text id, ofHex text = .ok id ↔ IsText text ∧ id.toHex = text.toLower) ∧
      (∀ id : DeviceId, ofHex id.toHex = .ok id) ∧
      (∀ id id' : DeviceId, id.bytes < id'.bytes ↔ id.toHex < id'.toHex) ∧
      ∀ a b : Marker,
        (compare (Database.MarkerRow.ofMarker a).folder (Database.MarkerRow.ofMarker b).folder).then
          (compare (Database.MarkerRow.ofMarker a).device (Database.MarkerRow.ofMarker b).device) =
        compare a.key b.key := by
  refine ⟨fun text => exists_ofHex_iff, fun text id => ofHex_eq_ok_iff, ofHex_toHex, fun id id' => ?_,
    Database.MarkerRow.compare_ofMarker⟩
  exact Hex.encode_lt_encode.symm

namespace Database.Tables.Represents

variable {t : Tables} {m : Memory}

theorem allMarkers_eq (h : t.Represents m) : t.allMarkers = .ok m.markers.values := by
  obtain ⟨values, hrows, hperm⟩ := h.markers
  have hsort := h.keyed.markers.mergeSort_eq_values hperm
  have hmap : (values.map MarkerRow.ofMarker).mergeSort (fun a b =>
      ((compare a.folder b.folder).then (compare a.device b.device)).isLE) =
      m.markers.values.map MarkerRow.ofMarker := by
    rw [← hsort]
    apply (List.map_mergeSort _).symm
    intro a _ b _
    rw [MarkerRow.compare_ofMarker]
  rw [Tables.allMarkers, hrows, hmap]
  exact mapM_map_eq_ok fun k _ => MarkerRow.toMarker_ofMarker k

theorem allStats_eq (h : t.Represents m) :
    (t.stats.mergeSort fun a b => (compare a.folder b.folder).isLE) = m.stats.values := by
  obtain ⟨values, hrows, hperm⟩ := h.stats
  rw [hrows, List.map_id]
  exact h.keyed.stats.mergeSort_eq_values hperm

theorem children_eq (h : t.Represents m) (folder parent : String) :
    ∃ records, t.children folder parent = .ok records ∧ records.Perm (m.children folder parent) ∧
      records.map (·.fileName) = (m.children folder parent).map (·.fileName) := by
  obtain ⟨values, hrows, hperm⟩ := h.files
  let children := values.filter (Memory.isChild folder parent)
  let sorted := children.mergeSort fun a b => (compare a.fileName b.fileName).isLE
  have hsorted : sorted.Perm (m.children folder parent) :=
    ((List.mergeSort_perm children _).trans (hperm.filter _)).trans (List.mergeSort_perm _ _).symm
  refine ⟨sorted, ?_, hsorted, ?_⟩
  · have hfilter : (values.map FileRow.ofRecord).filter (fun row =>
        row.folder == folder && row.parent == parent && !row.deleted && !Path.isRoot row.path) =
        children.map FileRow.ofRecord := List.filter_map
    have hmap : (children.map FileRow.ofRecord).mergeSort (fun a b =>
        (compare a.fileName b.fileName).isLE) = sorted.map FileRow.ofRecord := by
      apply (List.map_mergeSort _).symm
      exact fun _ _ _ _ => rfl
    rw [Tables.children, hrows, hfilter, hmap]
    apply mapM_map_eq_ok
    intro r hr
    have hmem : r ∈ values := (List.mem_filter.mp (List.mem_mergeSort.mp hr)).1
    exact FileRow.toRecord_ofRecord (h.filesFit r (hperm.mem_iff.mp hmem))
  · have hnames : ∀ records : List FileRecord,
        ((records.mergeSort fun a b => (compare a.fileName b.fileName).isLE).map
          (·.fileName)).Pairwise fun a b => (compare a b).isLE :=
      fun records => List.pairwise_map.mpr (Table.pairwise_mergeSort FileRecord.fileName records)
    apply (hsorted.map _).eq_of_pairwise _ (hnames children) (hnames _)
    exact fun a b _ _ hab hba =>
      Std.LawfulEqOrd.eq_of_compare (Std.OrientedCmp.isLE_antisymm hab hba)

end Database.Tables.Represents

end BlockExchange
