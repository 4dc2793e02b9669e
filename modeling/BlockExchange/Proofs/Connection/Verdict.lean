import BlockExchange.Proofs.Connection.Frames
import BlockExchange.Proofs.Connection.Messages
import BlockExchange.Proofs.Index.Marked

namespace BlockExchange

def Message.part? : Message → Option IndexPart
  | index p | indexUpdate p => some p
  | _ => none

def ClusterInfo.part? (info : ClusterInfo) (m : Message) : Option IndexPart :=
  m.part?.filter fun p => info.hasFolder p.folder

namespace Index

def takePart (device : DeviceId) (i : Index) (p : IndexPart) : Index :=
  (i.receiveMessage p.folder device p.files).2

def serve (info : ClusterInfo) (device : DeviceId) (i : Index) (m : Message) : Index :=
  (info.part? m).elim i (i.takePart device)

def knownPart? (info : ClusterInfo) (device : DeviceId) (i : Index) (m : Message) :
    Option IndexPart :=
  (info.part? m).filter fun p => i.store.hasMarker p.folder device

variable {info : ClusterInfo} {device : DeviceId} {i : Index}

theorem isWellKeyed_serve (h : i.store.IsWellKeyed) (m : Message) :
    (i.serve info device m).store.IsWellKeyed := by
  unfold serve
  cases info.part? m with
  | none => exact h
  | some p => exact isWellKeyed_receiveMessage h p.folder device p.files

theorem knownPart?_serve (h : i.store.IsWellKeyed) (m : Message) :
    (i.serve info device m).knownPart? info device = i.knownPart? info device := by
  have hmarker : ∀ folder, (i.serve info device m).store.hasMarker folder device =
      i.store.hasMarker folder device := by
    intro folder
    unfold serve
    cases info.part? m with
    | none => rfl
    | some p => exact hasMarker_receiveMessage h p.folder device p.files folder
  funext m'
  unfold knownPart?
  simp only [hmarker]

theorem serve_eq (i : Index) (m : Message) :
    i.serve info device m = (i.knownPart? info device m).elim i (i.takePart device) := by
  unfold serve knownPart?
  cases info.part? m with
  | none => rfl
  | some p =>
    rw [Option.filter_some]
    split_ifs with hmarker
    · rfl
    · exact receiveMessage_of_not_hasMarker (by simpa using hmarker)

/-- What some messages come to: those are taken in, in their order, that bring parts of shared folders
in which the progress of the device is known. -/
def served (info : ClusterInfo) (device : DeviceId) (i : Index) (messages : List Message) : Index :=
  (messages.filterMap (i.knownPart? info device)).foldl (takePart device) i

theorem foldl_serve (h : i.store.IsWellKeyed) (messages : List Message) :
    messages.foldl (serve info device) i = i.served info device messages := by
  induction messages generalizing i with
  | nil => rfl
  | cons m rest ih =>
    rw [List.foldl_cons, ih (isWellKeyed_serve h m), served, served, knownPart?_serve h m,
      List.filterMap_cons, serve_eq]
    cases i.knownPart? info device m <;> rfl

end Index

section

variable (info : ClusterInfo) (device : DeviceId)

inductive Verdict (i : Index) : Message → Except ExchangeError Unit → Prop
  | close (reason : String) : Verdict i (.close reason) (.ok ())
  | clusterConfig (folders : List OfferedFolder) :
    Verdict i (.clusterConfig folders) (.error (.violation (.unexpected "cluster_config")))
  | downloadProgress (p : DownloadProgress) :
    Verdict i (.downloadProgress p) (.error (.violation (.unexpected "download_progress")))
  | refusal {m : Message} {p : IndexPart} {e : ExchangeError} (hp : info.part? m = some p)
    (he : (i.receiveMessage p.folder device p.files).1 = .error e)
    (hne : ∀ d f, e ≠ .noMarker d f) : Verdict i m (.error e)

inductive Passes : Index → Bytes → List Message → Bytes → Prop
  | nil (i : Index) (bytes : Bytes) : Passes i bytes [] bytes
  | cons {i : Index} {m : Message} {rest : List Message} {bytes mid left : Bytes}
    (hm : Frame.messageFormat.Opens m bytes mid) (hv : ∀ r, ¬Verdict info device i m r)
    (hrest : Passes (i.serve info device m) mid rest left) : Passes i bytes (m :: rest) left

/-- What some bytes begin with is the end of the connection: a message that ends it, a frame that
cannot be read, or less than a frame when no more will come. -/
inductive EndsAt (i : Index) (closed : Prop) (bytes : Bytes) : Except ExchangeError Unit → Prop
  | message {m : Message} {rest : Bytes} {r : Except ExchangeError Unit}
    (hm : Frame.messageFormat.Opens m bytes rest) (hv : Verdict info device i m r) :
    EndsAt i closed bytes r
  | garbage {e : CodecError} (h : Frame.messageFormat.parse bytes = some (.error e)) :
    EndsAt i closed bytes (.error (.codec e))
  | breakOff (h : Frame.messageFormat.parse bytes = none) (hc : closed) :
    EndsAt i closed bytes (.error .closed)

end

variable {info : ClusterInfo} {device : DeviceId} {i : Index} {bytes left : Bytes}
  {messages : List Message} {m : Message} {closed : Prop} {r r' : Except ExchangeError Unit}

theorem Verdict.unique (h : Verdict info device i m r) (h' : Verdict info device i m r') : r = r' := by
  cases h with
  | close reason =>
    cases h' with
    | close => rfl
    | refusal hp => cases hp
  | clusterConfig folders =>
    cases h' with
    | clusterConfig => rfl
    | refusal hp => cases hp
  | downloadProgress p =>
    cases h' with
    | downloadProgress => rfl
    | refusal hp => cases hp
  | refusal hp he hne =>
    cases h' with
    | refusal hp' he' hne' =>
      cases hp.symm.trans hp'
      rw [Except.error.inj (he.symm.trans he')]
    | _ => cases hp

theorem Verdict.refused {p : IndexPart} (h : Verdict info device i m r)
    (hp : info.part? m = some p) : ∃ e, r = .error e ∧
      (i.receiveMessage p.folder device p.files).1 = .error e ∧ ∀ d f, e ≠ .noMarker d f := by
  cases h with
  | refusal hp' he hne =>
    cases hp.symm.trans hp'
    exact ⟨_, rfl, he, hne⟩
  | _ => cases hp

theorem Frame.Format.Opens.unique {α : Type} {f : Frame.Format α} {a b : α} {left' : Bytes}
    (h : f.Opens a bytes left) (h' : f.Opens b bytes left') : a = b ∧ left = left' := by
  have heq := (Frame.Format.opens_iff.mp h).symm.trans (Frame.Format.opens_iff.mp h')
  cases heq
  exact ⟨rfl, rfl⟩

namespace Frame.Format

variable {α : Type} {f : Format α} {values values' : List α} {left' : Bytes}

theorem opensAll_flatten {frames : List Bytes} (h : values.Forall₂ f.IsFrameOf frames) :
    f.OpensAll values frames.flatten [] := by
  induction h with
  | nil => exact .nil []
  | cons hframe hrest ih => exact .cons ⟨_, rfl, hframe⟩ ih

theorem OpensAll.prefix_of (h : f.OpensAll values bytes left) (hleft : f.parse left = none)
    (h' : f.OpensAll values' bytes left') : values' <+: values := by
  induction h generalizing values' with
  | nil bytes =>
    cases h' with
    | nil => exact List.prefix_rfl
    | cons ha hrest => cases hleft.symm.trans (opens_iff.mp ha)
  | cons ha hrest ih =>
    cases h' with
    | nil => exact List.nil_prefix
    | cons ha' hrest' =>
      obtain ⟨rfl, rfl⟩ := ha.unique ha'
      exact (List.prefix_cons_inj _).mpr (ih hleft hrest')

end Frame.Format

namespace Passes

theorem opensAll (h : Passes info device i bytes messages left) :
    Frame.messageFormat.OpensAll messages bytes left := by
  induction h with
  | nil i bytes => exact .nil _
  | cons hm hv hrest ih => exact .cons hm ih

theorem append (h : Passes info device i bytes messages left) (new : Bytes) :
    Passes info device i (bytes ++ new) messages (left ++ new) := by
  induction h with
  | nil i bytes => exact .nil _ _
  | cons hm hv hrest ih => exact .cons (hm.append new) hv ih

theorem concat (h : Passes info device i bytes messages left) {rest : Bytes}
    (hm : Frame.messageFormat.Opens m left rest)
    (hv : ∀ r, ¬Verdict info device (messages.foldl (Index.serve info device) i) m r) :
    Passes info device i bytes (messages ++ [m]) rest := by
  induction h with
  | nil i bytes => exact .cons hm hv (.nil _ _)
  | cons hm' hv' hrest ih => exact .cons hm' hv' (ih hm hv)

end Passes

namespace EndsAt

theorem append (h : EndsAt info device i closed bytes r) {new : Bytes} (hnew : closed → new = []) :
    EndsAt info device i closed (bytes ++ new) r := by
  cases h with
  | message hm hv => exact .message (hm.append new) hv
  | garbage h => exact .garbage (Frame.Format.parse_append_error h new)
  | breakOff h hc => exact .breakOff (by rw [hnew hc, List.append_nil]; exact h) hc

theorem mono {closed' : Prop} (h : EndsAt info device i closed bytes r) (hc : closed → closed') :
    EndsAt info device i closed' bytes r := by
  cases h with
  | message hm hv => exact .message hm hv
  | garbage h => exact .garbage h
  | breakOff h hclosed => exact .breakOff h (hc hclosed)

theorem exists_verdict (h : EndsAt info device i closed bytes r)
    (hm : Frame.messageFormat.Opens m bytes left) : ∃ r, Verdict info device i m r := by
  have hparse := Frame.Format.opens_iff.mp hm
  cases h with
  | message hm' hv =>
    obtain ⟨rfl, -⟩ := hm.unique hm'
    exact ⟨_, hv⟩
  | garbage h => cases hparse.symm.trans h
  | breakOff h hc => cases hparse.symm.trans h

theorem unique {closed' : Prop} (h : EndsAt info device i closed bytes r)
    (h' : EndsAt info device i closed' bytes r') : r = r' := by
  cases h with
  | message hm hv =>
    have hparse := Frame.Format.opens_iff.mp hm
    cases h' with
    | message hm' hv' =>
      obtain ⟨rfl, -⟩ := hm.unique hm'
      exact hv.unique hv'
    | garbage h' => cases hparse.symm.trans h'
    | breakOff h' hc' => cases hparse.symm.trans h'
  | garbage h =>
    cases h' with
    | message hm' hv' => cases h.symm.trans (Frame.Format.opens_iff.mp hm')
    | garbage h' => cases h.symm.trans h'; rfl
    | breakOff h' hc' => cases h.symm.trans h'
  | breakOff h hc =>
    cases h' with
    | message hm' hv' => cases h.symm.trans (Frame.Format.opens_iff.mp hm')
    | garbage h' => cases h.symm.trans h'
    | breakOff h' hc' => rfl

theorem eq_ok_iff (h : EndsAt info device i closed bytes r) :
    r = .ok () ↔ ∃ reason rest, Frame.messageFormat.Opens (.close reason) bytes rest := by
  constructor
  · rintro rfl
    cases h with
    | message hm hv =>
      cases hv with
      | close reason => exact ⟨reason, _, hm⟩
  · rintro ⟨reason, rest, hm⟩
    have hclose : EndsAt info device i closed bytes (.ok ()) := .message hm (.close reason)
    exact h.unique hclose

theorem exists_violation_iff (h : EndsAt info device i closed bytes r) :
    (∃ v, r = .error (.violation v)) ↔ ∃ m rest, Frame.messageFormat.Opens m bytes rest ∧
      ((∃ folders, m = .clusterConfig folders) ∨ ∃ p, m = .downloadProgress p) := by
  constructor
  · rintro ⟨v, rfl⟩
    cases h with
    | message hm hv =>
      cases hv with
      | clusterConfig folders => exact ⟨_, _, hm, .inl ⟨folders, rfl⟩⟩
      | downloadProgress p => exact ⟨_, _, hm, .inr ⟨p, rfl⟩⟩
      | refusal hp he hne =>
        rw [Index.receiveMessage_fst] at he
        obtain herr | ⟨cause, herr⟩ := Index.merge_eq_error he <;> cases herr
  · rintro ⟨m, rest, hm, ⟨folders, rfl⟩ | ⟨p, rfl⟩⟩
    · have hend : EndsAt info device i closed bytes _ := .message hm (.clusterConfig folders)
      exact ⟨_, h.unique hend⟩
    · have hend : EndsAt info device i closed bytes _ := .message hm (.downloadProgress p)
      exact ⟨_, h.unique hend⟩

theorem result_cases (h : EndsAt info device i closed bytes r) :
    r = .ok () ∨ (∃ v, r = .error (.violation v)) ∨
      (∃ e, r = .error (.codec e) ∧ Frame.messageFormat.parse bytes = some (.error e)) ∨
      (r = .error .closed ∧ Frame.messageFormat.parse bytes = none) ∨
      ∃ cause, r = .error (.store cause) ∧ ∃ m rest p, Frame.messageFormat.Opens m bytes rest ∧
        info.part? m = some p := by
  cases h with
  | message hm hv =>
    cases hv with
    | close reason => exact .inl rfl
    | clusterConfig folders => exact .inr (.inl ⟨_, rfl⟩)
    | downloadProgress p => exact .inr (.inl ⟨_, rfl⟩)
    | refusal hp he hne =>
      rw [Index.receiveMessage_fst] at he
      obtain rfl | ⟨cause, rfl⟩ := Index.merge_eq_error he
      · exact absurd rfl (hne _ _)
      · exact .inr (.inr (.inr (.inr ⟨cause, rfl, _, _, _, hm, hp⟩)))
  | garbage h => exact .inr (.inr (.inl ⟨_, rfl, h⟩))
  | breakOff h hc => exact .inr (.inr (.inr (.inl ⟨rfl, h⟩)))

end EndsAt

theorem Passes.exists_rest (h : Passes info device i bytes messages left)
    (he : EndsAt info device (messages.foldl (Index.serve info device) i) closed left r)
    {passed : List Message} {left' : Bytes} (h' : Passes info device i bytes passed left') :
    ∃ rest, messages = passed ++ rest ∧
      Passes info device (passed.foldl (Index.serve info device) i) left' rest left := by
  induction h' generalizing messages with
  | nil i bytes => exact ⟨messages, rfl, h⟩
  | cons hm hv hrest ih =>
    cases h with
    | nil =>
      -- What the end is in front of would have been passed.
      obtain ⟨r', hr'⟩ := he.exists_verdict hm
      exact absurd hr' (hv r')
    | cons hm' hv' hrest' =>
      obtain ⟨rfl, rfl⟩ := hm.unique hm'
      obtain ⟨rest, rfl, hpasses⟩ := ih hrest' he
      exact ⟨rest, rfl, hpasses⟩

theorem Passes.unique {closed' : Prop} (h : Passes info device i bytes messages left)
    (he : EndsAt info device (messages.foldl (Index.serve info device) i) closed left r)
    {messages' : List Message} {left' : Bytes} (h' : Passes info device i bytes messages' left')
    (he' : EndsAt info device (messages'.foldl (Index.serve info device) i) closed' left' r') :
    messages = messages' ∧ r = r' := by
  obtain ⟨rest, rfl, hrest⟩ := h.exists_rest he h'
  cases hrest with
  | nil =>
    rw [List.append_nil] at he ⊢
    exact ⟨rfl, he.unique he'⟩
  | cons hm hv hrest =>
    obtain ⟨r'', hr''⟩ := he'.exists_verdict hm
    exact absurd hr'' (hv r'')

end BlockExchange
