import BlockExchange.Proofs.Connection.Account
import BlockExchange.Proofs.Traversal

namespace BlockExchange

theorem Int32.eq_of_ofNat_eq {m n : Nat} (hm : m < 2 ^ 32) (hn : n < 2 ^ 32)
    (h : Int32.ofNat m = Int32.ofNat n) : m = n := by
  have hbits : m % 2 ^ 32 = n % 2 ^ 32 := congrArg (fun i : Int32 => i.toBitVec.toNat) h
  rwa [Nat.mod_eq_of_lt hm, Nat.mod_eq_of_lt hn] at hbits

namespace Topic

def requests (topics : List Topic) : List Nat := topics.filterMap request?

@[simp] theorem requests_nil : requests [] = [] := rfl

@[simp] theorem requests_concat (topics : List Topic) (t : Topic) :
    requests (topics ++ [t]) = requests topics ++ t.request?.toList := by
  rw [requests, List.filterMap_append, List.filterMap_cons]
  cases t.request? <;> rfl

def IsAwaited (topics : List Topic) (id : Int32) (call : Nat) : Prop :=
  ∃ before t after, topics = before ++ t :: after ∧ t.request? = some call ∧
    id = Int32.ofNat (requests before).length ∧ ∀ t' ∈ after, ∀ r, t'.settling? ≠ some (id, r)

def IsSettled (topics : List Topic) (call : Nat) (r : Except ExchangeError BlockResponse) : Prop :=
  ∃ before t after, topics = before ++ t :: after ∧
    ∃ id, t.settling? = some (id, r) ∧ IsAwaited before id call

variable {topics : List Topic} {t : Topic} {id : Int32} {call : Nat}
  {r : Except ExchangeError BlockResponse}

theorem not_isAwaited_nil : ¬IsAwaited [] id call := by
  rintro ⟨before, t, after, heq, -⟩
  cases before <;> cases heq

theorem not_isSettled_nil : ¬IsSettled [] call r := by
  rintro ⟨before, t, after, heq, -⟩
  cases before <;> cases heq

theorem isAwaited_concat : IsAwaited (topics ++ [t]) id call ↔
    (IsAwaited topics id call ∧ ∀ r, t.settling? ≠ some (id, r)) ∨
      t.request? = some call ∧ id = Int32.ofNat (requests topics).length := by
  unfold IsAwaited
  rw [exists_split_concat]
  constructor
  · rintro (⟨before, t', after, heq, hcall, hid, hafter⟩ | ⟨hcall, hid, -⟩)
    · refine .inl ⟨⟨before, t', after, heq, hcall, hid, fun u hu => hafter u ?_⟩, hafter t ?_⟩
      · exact List.mem_append_left _ hu
      · exact List.mem_append_right _ (List.mem_singleton_self t)
    · exact .inr ⟨hcall, hid⟩
  · rintro (⟨⟨before, t', after, heq, hcall, hid, hafter⟩, ht⟩ | ⟨hcall, hid⟩)
    · refine .inl ⟨before, t', after, heq, hcall, hid, fun u hu => ?_⟩
      rcases List.mem_append.mp hu with hu | hu
      · exact hafter u hu
      · exact List.mem_singleton.mp hu ▸ ht
    · exact .inr ⟨hcall, hid, nofun⟩

theorem isSettled_concat : IsSettled (topics ++ [t]) call r ↔
    IsSettled topics call r ∨ ∃ id, t.settling? = some (id, r) ∧ IsAwaited topics id call :=
  exists_split_concat

theorem IsAwaited.exists_getElem? (h : IsAwaited topics id call) :
    ∃ n, id = Int32.ofNat n ∧ (requests topics)[n]? = some call := by
  obtain ⟨before, t, after, rfl, hcall, hid, -⟩ := h
  refine ⟨_, hid, ?_⟩
  unfold requests
  rw [List.filterMap_append, List.filterMap_cons, hcall, List.getElem?_append_right (Nat.le_refl _),
    Nat.sub_self, List.getElem?_cons_zero]

theorem IsAwaited.id_lt (h : IsAwaited topics id call) :
    ∃ n < (requests topics).length, id = Int32.ofNat n := by
  obtain ⟨n, hid, hn⟩ := h.exists_getElem?
  exact ⟨n, (List.getElem?_eq_some_iff.mp hn).1, hid⟩

theorem IsAwaited.call_unique (hfew : (requests topics).length ≤ 2 ^ 32) {call' : Nat}
    (h : IsAwaited topics id call) (h' : IsAwaited topics id call') : call = call' := by
  obtain ⟨m, rfl, hm⟩ := h.exists_getElem?
  obtain ⟨n, hid, hn⟩ := h'.exists_getElem?
  have hmlt := (List.getElem?_eq_some_iff.mp hm).1
  have hnlt := (List.getElem?_eq_some_iff.mp hn).1
  obtain rfl := Int32.eq_of_ofNat_eq (by omega) (by omega) hid
  exact Option.some.inj (hm.symm.trans hn)

theorem not_isAwaited_next (hfew : (requests topics).length < 2 ^ 32) :
    ¬IsAwaited topics (Int32.ofNat (requests topics).length) call := by
  intro h
  obtain ⟨n, hn, hid⟩ := h.id_lt
  exact absurd (Int32.eq_of_ofNat_eq hfew (by omega) hid) (by omega)

end Topic

end BlockExchange
