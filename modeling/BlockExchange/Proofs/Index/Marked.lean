import BlockExchange.Proofs.Index.Frame
import BlockExchange.Proofs.Index.Run

namespace BlockExchange

variable {folder : String} {device : DeviceId} {s : Store}

def Store.hasMarker (folder : String) (device : DeviceId) (s : Store) : Bool :=
  match (s.answer (.marker folder device)).1 with
  | .ok (some _) => true
  | _ => false

namespace Store

theorem hasMarker_memory (m : Memory) :
    (memory m).hasMarker folder device = (m.markers.get? ⟨folder, device⟩).isSome := by
  have hanswer : ((memory m).answer (.marker folder device)).1 =
      .ok (m.markers.get? ⟨folder, device⟩) := rfl
  unfold hasMarker
  rw [hanswer]
  cases m.markers.get? ⟨folder, device⟩ <;> rfl

theorem hasMarker_database (versions : List Int) (t : Database.Tables) (durable : Bool) :
    (database versions t durable).hasMarker folder device =
      (t.markers.find? (Database.Tables.isMarkerOf folder device.toHex)).isSome := by
  have hanswer : ((database versions t durable).answer (.marker folder device)).1 =
      (t.marker folder device).mapError .database := rfl
  unfold hasMarker
  rw [hanswer, Database.Tables.marker]
  cases hfind : t.markers.find? (Database.Tables.isMarkerOf folder device.toHex) with
  | none => rfl
  | some row =>
    have hrow := List.find?_some hfind
    simp only [Database.Tables.isMarkerOf, Bool.and_eq_true, beq_iff_eq] at hrow
    simp only [Database.MarkerRow.toMarker, hrow.2, DeviceId.ofHex_toHex]
    rfl

theorem hasMarker_answer (h : s.hasMarker folder device) {q : Query} {f : String} {d : DeviceId}
    (hq : q.IsWithin f d) : (s.answer q).2.hasMarker folder device := by
  cases s with
  | memory m =>
    rw [hasMarker_memory] at h
    have hafter : ((memory m).answer q).2 = memory (m.answer q).2 := rfl
    rw [hafter, hasMarker_memory]
    cases q with
    | putMarker k =>
      simp only [Memory.answer, Table.get?_insert]
      split_ifs
      · rfl
      · exact h
    | putFile r blocks =>
      simp only [Memory.answer]
      split <;> exact h
    | addStats f change =>
      simp only [Memory.answer]
      split <;> exact h
    | clear draw => exact hq.elim
    | _ => exact h
  | database versions t durable =>
    rw [hasMarker_database] at h
    have hafter : ((database versions t durable).answer q).2 =
        database versions (Database.answer q t).2 durable := rfl
    rw [hafter, hasMarker_database]
    cases q with
    | putMarker k =>
      by_cases hkey : k.key = ⟨folder, device⟩
      · have hrow : Database.Tables.isMarkerOf folder device.toHex (.ofMarker k) = true := by
          rw [Database.isMarkerOf_ofMarker, decide_eq_true hkey]
        have hnew : (t.putMarker k).markers.find? (Database.Tables.isMarkerOf folder device.toHex) ≠
            none := by
          intro hnone
          have hlast := List.find?_eq_none.mp hnone _ (List.mem_append_right _ List.mem_cons_self)
          exact hlast hrow
        exact Option.isSome_iff_ne_none.mpr hnew
      · have hapart := (t.agreesApart_putMarker k).markers folder device fun hf hd =>
          hkey (by rw [Marker.key, hf, hd])
        exact (congrArg Option.isSome hapart).trans h
    | putFile r blocks =>
      simp only [Database.answer]
      split <;> exact h
    | touchStats f millis =>
      simp only [Database.answer]
      split <;> exact h
    | addStats f change =>
      simp only [Database.answer]
      split <;> exact h
    | clear draw => exact hq.elim
    | _ => exact h

theorem hasMarker_run {ε α : Type} {t : Transaction ε α} {f : String} {d : DeviceId}
    (h : s.hasMarker folder device) (ht : t.Asks (fun _ q => q.IsWithin f d) s) :
    (t.run answer s).2.hasMarker folder device := by
  induction t generalizing s with
  | done a => exact h
  | fail e => exact h
  | ask q next ih => exact ih _ (hasMarker_answer h ht.1) ht.2

end Store

namespace Index

variable {i : Index} {files : List FileEntry}

theorem isWellKeyed_receiveMessage (h : i.store.IsWellKeyed) (folder : String) (device : DeviceId)
    (files : List FileEntry) : (i.receiveMessage folder device files).2.store.IsWellKeyed := by
  have hmerge := (agreesApart_merge h folder device files).1
  unfold receiveMessage
  split <;> rename_i heq <;> rw [heq] at hmerge
  · rw [store_publish]
    exact hmerge
  · exact hmerge

theorem store_receiveMessage (i : Index) (folder : String) (device : DeviceId)
    (files : List FileEntry) : (i.receiveMessage folder device files).2.store =
      (i.merge folder device files).2.store := by
  unfold receiveMessage
  split <;> rename_i heq <;> rw [heq]
  exact store_publish _ _ _ _

theorem receiveMessage_fst (i : Index) (folder : String) (device : DeviceId)
    (files : List FileEntry) : (i.receiveMessage folder device files).1 =
      (i.merge folder device files).1 := by
  unfold receiveMessage
  split <;> rename_i heq <;> rw [heq]

theorem merge_eq (i : Index) (folder : String) (device : DeviceId) (files : List FileEntry) :
    (i.merge folder device files).1 = ((receive folder device files).run Store.answer i.store).1 :=
  Transaction.commit_fst (receive folder device files) i.store

theorem findMarker_eq_error {e : ExchangeError} {s' : Store}
    (h : (findMarker folder device).run Store.answer s = (.error e, s')) :
    e = .noMarker device folder ∨ ∃ cause, e = .store cause := by
  have hbind : (findMarker folder device).run Store.answer s = _ := Transaction.run_bind
    ((Query.marker folder device).ask.mapError ExchangeError.store) _ s
  rw [Transaction.run_mapError, Transaction.run_ask] at hbind
  have hfind := hbind.symm.trans h
  cases ha : (s.answer (.marker folder device)).1 with
  | error cause =>
    rw [ha] at hfind
    exact .inr ⟨cause, (Except.error.inj (Prod.mk.inj hfind).1).symm⟩
  | ok k? =>
    rw [ha] at hfind
    cases k? with
    | some k => cases hfind
    | none => exact .inl (Except.error.inj (Prod.mk.inj hfind).1).symm

theorem merge_eq_error {e : ExchangeError} (h : (i.merge folder device files).1 = .error e) :
    e = .noMarker device folder ∨ ∃ cause, e = .store cause := by
  rw [merge_eq, receive, Transaction.run_bind] at h
  split at h
  · rename_i k s' hfind
    have hlift : ((takeIn k folder files).mapError ExchangeError.store).run Store.answer s' = _ :=
      Transaction.run_mapError _ _ _
    have hmap := (congrArg Prod.fst hlift).symm.trans h
    cases htake : ((takeIn k folder files).run Store.answer s').1 with
    | ok r => rw [htake] at hmap; cases hmap
    | error cause =>
      rw [htake] at hmap
      exact .inr ⟨cause, (Except.error.inj hmap).symm⟩
  · rename_i e' s' hfind
    cases h
    exact findMarker_eq_error hfind

theorem hasMarker_of_merge_ok {r : Received} (h : (i.merge folder device files).1 = .ok r) :
    i.store.hasMarker folder device := by
  rw [merge_eq] at h
  have hrun : (receive folder device files).run Store.answer i.store =
      (.ok r, ((receive folder device files).run Store.answer i.store).2) := Prod.ext h rfl
  obtain ⟨k, s', hfind, -⟩ := Transaction.run_bind_eq_ok hrun
  unfold Store.hasMarker
  rw [findMarker_eq_ok hfind]

theorem receiveMessage_of_not_hasMarker (h : i.store.hasMarker folder device = false) :
    (i.receiveMessage folder device files).2 = i := by
  cases hr : (i.receiveMessage folder device files).1 with
  | error e => exact receiveMessage_of_error hr
  | ok r =>
    rw [receiveMessage_fst] at hr
    exact absurd (hasMarker_of_merge_ok hr) (by simp [h])

theorem hasMarker_receiveMessage (h : i.store.IsWellKeyed) (f : String) (device : DeviceId)
    (files : List FileEntry) (folder : String) :
    (i.receiveMessage f device files).2.store.hasMarker folder device =
      i.store.hasMarker folder device := by
  by_cases hf : i.store.hasMarker f device
  · by_cases hfolder : folder = f
    · subst hfolder
      rw [hf, store_receiveMessage]
      have hasks : (receive folder device files).Asks (fun _ q => q.IsWithin folder device) i.store :=
        receive_asks h files
      exact Transaction.commit_snd (p := fun s : Store => s.hasMarker folder device = true) hf
        (Store.hasMarker_run hf hasks)
    · have hapart : (Query.marker folder device).IsApart f device := fun heq => absurd heq hfolder
      have hsame := (agreesApart_merge h f device files).2 _ hapart
      unfold Store.hasMarker
      rw [store_receiveMessage, hsame]
  · rw [receiveMessage_of_not_hasMarker (by simpa using hf)]

end Index

end BlockExchange
