import BlockExchange.Index
import BlockExchange.Proofs.Index.Balance

namespace BlockExchange

def DeviceId.zero : DeviceId := ⟨List.replicate 32 0, rfl⟩

def FileEntry.directory (name : String) (modifiedSeconds sequence : Int64) : FileEntry :=
  { name, fileType := 1, modifiedSeconds, versions := [⟨1, 1⟩], sequence }

namespace Index

inductive Operation where
  | message (folder : String) (peer : DeviceId) (files : List FileEntry)
  | announcement (folder : String) (peer : DeviceId) (indexId : UInt64) (maxSequence : Int)
  | clearing (draw : UInt64)

def Operation.Bounded : Operation → Prop
  | message _ _ files => ∀ f ∈ files, f.Bounded
  | _ => True

instance (operation : Operation) : Decidable operation.Bounded :=
  match operation with
  | .message _ _ files => inferInstanceAs (Decidable (∀ f ∈ files, f.Bounded))
  | .announcement .. => isTrue trivial
  | .clearing _ => isTrue trivial

def perform (i : Index) : Operation → Index
  | .message folder peer files => (i.receiveMessage folder peer files).2
  | .announcement folder peer indexId maxSequence =>
    (i.receiveAnnouncement folder peer indexId maxSequence).2
  | .clearing draw => (i.ask (.clear draw)).2

def run (i : Index) (operations : List Operation) : Index :=
  operations.foldl perform i

def Succeeds : List Operation → Index → Prop
  | [], _ => True
  | .message folder peer files :: rest, i =>
    (i.receiveMessage folder peer files).1.isOk ∧
      Succeeds rest (i.perform (.message folder peer files))
  | operation :: rest, i => Succeeds rest (i.perform operation)

instance Succeeds.decidable : (operations : List Operation) → (i : Index) →
    Decidable (Succeeds operations i)
  | [], _ => isTrue trivial
  | .message folder peer files :: rest, i =>
    have := decidable rest (i.perform (.message folder peer files))
    inferInstanceAs (Decidable (_ ∧ _))
  | .announcement folder peer indexId maxSequence :: rest, i =>
    decidable rest (i.perform (.announcement folder peer indexId maxSequence))
  | .clearing draw :: rest, i => decidable rest (i.perform (.clearing draw))

end Index

open Index

namespace Memory

instance (m : Memory) (folder : String) (files : List FileEntry) :
    Decidable (m.Admits folder files) :=
  inferInstanceAs (Decidable (_ ∨ _))

def perform (m : Memory) : Operation → Memory
  | .message folder peer files =>
    match m.markers.get? ⟨folder, peer⟩ with
    | some marker => if m.Admits folder files then m.merged marker folder files else m
    | none => m
  | .announcement folder peer indexId maxSequence =>
    m.announcing folder peer indexId maxSequence
  | .clearing draw => fresh draw

def run (m : Memory) (operations : List Operation) : Memory :=
  operations.foldl perform m

variable {m : Memory}

theorem perform_message_of_none {folder : String} {peer : DeviceId} (files : List FileEntry)
    (h : m.markers.get? ⟨folder, peer⟩ = none) : m.perform (.message folder peer files) = m := by
  rw [perform, h]

theorem perform_message_of_not_admits {folder : String} {files : List FileEntry}
    (h : ¬m.Admits folder files) (peer : DeviceId) : m.perform (.message folder peer files) = m := by
  rw [perform]
  cases m.markers.get? ⟨folder, peer⟩ with
  | none => rfl
  | some marker => exact if_neg h

theorem perform_message_of_admits {folder : String} {peer : DeviceId} {files : List FileEntry}
    {marker : Marker} (hk : m.markers.get? ⟨folder, peer⟩ = some marker)
    (h : m.Admits folder files) :
    m.perform (.message folder peer files) = m.merged marker folder files := by
  rw [perform, hk]
  exact if_pos h

theorem perform_message_cases (m : Memory) (folder : String) (peer : DeviceId)
    (files : List FileEntry) :
    m.perform (.message folder peer files) = m ∨
      ∃ marker, m.markers.get? ⟨folder, peer⟩ = some marker ∧ m.Admits folder files ∧
        m.perform (.message folder peer files) = m.merged marker folder files := by
  cases hk : m.markers.get? ⟨folder, peer⟩ with
  | none => exact .inl (perform_message_of_none files hk)
  | some marker =>
    by_cases h : m.Admits folder files
    · exact .inr ⟨marker, rfl, h, perform_message_of_admits hk h⟩
    · exact .inl (perform_message_of_not_admits h peer)

theorem Balanced.announcing (h : m.Balanced) (folder : String) (peer : DeviceId)
    (indexId : UInt64) (maxSequence : Int) :
    (m.announcing folder peer indexId maxSequence).Balanced :=
  ⟨h.recount, h.nonneg⟩

theorem Balanced.perform (h : m.Balanced) (hk : m.IsWellKeyed) (operation : Operation) :
    (m.perform operation).Balanced := by
  cases operation with
  | message folder peer files =>
    rcases m.perform_message_cases folder peer files with heq | ⟨marker, -, hadm, heq⟩
    · rw [heq]
      exact h
    · rw [heq]
      exact h.merged hk hadm marker
  | announcement folder peer indexId maxSequence => exact h.announcing _ _ _ _
  | clearing draw => exact balanced_fresh draw

end Memory

namespace Index

variable {i : Index} {m : Memory} {folder : String} {peer : DeviceId} {files : List FileEntry}
  {marker : Marker}

theorem transact_ok {ε α : Type} {t : Transaction ε α} {a : α} {m' : Memory} (h : i.store.Holds m)
    (ht : t.Plays m (.ok a) m') : (i.transact t).1 = .ok a ∧ (i.transact t).2.store.Holds m' :=
  h.transact_ok ht

theorem transact_error {ε α : Type} {t : Transaction ε α} {e : ε} {m' : Memory}
    (h : i.store.Holds m) (ht : t.Plays m (.error e) m') : i.transact t = (.error e, i) := by
  rw [transact, h.transact_error ht]

theorem store_publish (i : Index) (folder : String) (peer : DeviceId) (r : Index.Received) :
    (i.publish folder peer r).store = i.store := by
  unfold publish
  split_ifs <;> rfl

theorem receiveMessage_ok (h : i.store.Holds m) (hb : ∀ f ∈ files, f.Bounded)
    (hk : m.markers.get? ⟨folder, peer⟩ = some marker) (hadm : m.Admits folder files) :
    (i.receiveMessage folder peer files).1 = .ok (m.received marker folder files) ∧
      (i.receiveMessage folder peer files).2.store.Holds (m.merged marker folder files) := by
  obtain ⟨hreply, hnext⟩ := transact_ok h (receive_plays_ok hb hk hadm)
  have hmerge : i.merge folder peer files =
      (.ok (m.received marker folder files), (i.merge folder peer files).2) := Prod.ext hreply rfl
  rw [receiveMessage, hmerge]
  exact ⟨rfl, (store_publish _ folder peer _).symm ▸ hnext⟩

theorem receiveMessage_noMarker (h : i.store.Holds m)
    (hk : m.markers.get? ⟨folder, peer⟩ = none) :
    i.receiveMessage folder peer files = (.error (.noMarker peer folder), i) := by
  rw [receiveMessage, merge, transact_error h (receive_plays_noMarker hk)]

theorem receiveMessage_refused (h : i.store.Holds m) (hb : ∀ f ∈ files, f.Bounded)
    (hk : m.markers.get? ⟨folder, peer⟩ = some marker) (hadm : ¬m.Admits folder files) :
    i.receiveMessage folder peer files =
      (.error (.store (.negativeStats (m.shifted folder files))), i) := by
  rw [receiveMessage, merge, transact_error h (receive_plays_error hb hk hadm)]

theorem receiveMessage_of_error {e : ExchangeError}
    (h : (i.receiveMessage folder peer files).1 = .error e) :
    (i.receiveMessage folder peer files).2 = i := by
  cases hrun : i.store.transact (receive folder peer files) with
  | mk reply store =>
    cases reply with
    | ok r =>
      simp only [receiveMessage, merge, transact, hrun] at h
      cases h
    | error e' =>
      have hstore : store = i.store := Transaction.commit_error hrun
      simp only [receiveMessage, merge, transact, hrun, hstore]

theorem statsOf_eq (h : i.store.Holds m) (folder : String) :
    (i.statsOf folder).1 = .ok (m.statsOf folder) := by
  have hask : (i.ask (.stats folder)).1 = .ok (m.stats.get? folder) :=
    (transact_ok h ((Transaction.plays_ask (q := .stats folder) trivial).mapError
      ExchangeError.store)).1
  simp only [statsOf, hask]
  rfl

theorem holds_perform (h : i.store.Holds m) {operation : Operation} (hb : operation.Bounded) :
    (i.perform operation).store.Holds (m.perform operation) := by
  cases operation with
  | message folder peer files =>
    cases hk : m.markers.get? ⟨folder, peer⟩ with
    | none =>
      rw [perform, receiveMessage_noMarker h hk, Memory.perform_message_of_none files hk]
      exact h
    | some marker =>
      by_cases hadm : m.Admits folder files
      · rw [Memory.perform_message_of_admits hk hadm]
        exact (receiveMessage_ok h hb hk hadm).2
      · rw [perform, receiveMessage_refused h hb hk hadm,
          Memory.perform_message_of_not_admits hadm peer]
        exact h
  | announcement folder peer indexId maxSequence =>
    exact (transact_ok h (announce_plays h.keyed indexId maxSequence)).2
  | clearing draw =>
    exact (transact_ok h ((Transaction.plays_ask (q := .clear draw) trivial).mapError
      ExchangeError.store)).2

theorem holds_run (h : i.store.Holds m) {operations : List Operation}
    (hb : ∀ operation ∈ operations, operation.Bounded) :
    (i.run operations).store.Holds (m.run operations) := by
  induction operations generalizing i m with
  | nil => exact h
  | cons operation rest ih =>
    exact ih (holds_perform h (hb operation List.mem_cons_self))
      fun o ho => hb o (List.mem_cons_of_mem _ ho)

theorem holds_run_of_create {backend : Backend} {draw : UInt64} {store : Store}
    (hs : Store.create backend draw = .ok store) {operations : List Operation}
    (hb : ∀ operation ∈ operations, operation.Bounded) :
    (run { store } operations).store.Holds ((Memory.fresh draw).run operations) := by
  have hfresh : ({ store } : Index).store.Holds (.fresh draw) := Store.holds_of_create hs
  exact holds_run hfresh hb

theorem balanced_run (h : i.store.Holds m) (hm : m.Balanced) {operations : List Operation}
    (hb : ∀ operation ∈ operations, operation.Bounded) : (m.run operations).Balanced := by
  induction operations generalizing i m with
  | nil => exact hm
  | cons operation rest ih =>
    exact ih (holds_perform h (hb operation List.mem_cons_self)) (hm.perform h.keyed operation)
      fun o ho => hb o (List.mem_cons_of_mem _ ho)

theorem exists_holds_run {backend : Backend} {draw : UInt64} {store : Store}
    (hs : Store.create backend draw = .ok store) {operations : List Operation}
    (hb : ∀ operation ∈ operations, operation.Bounded) :
    ∃ m : Memory, (run { store } operations).store.Holds m ∧ m.Balanced := by
  have hfresh : ({ store } : Index).store.Holds (.fresh draw) := Store.holds_of_create hs
  exact ⟨_, holds_run_of_create hs hb, balanced_run hfresh (Memory.balanced_fresh draw) hb⟩

end Index

end BlockExchange
