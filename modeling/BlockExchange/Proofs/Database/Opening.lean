import BlockExchange.Proofs.Traversal
import BlockExchange.Store.Database.Schema
import Mathlib.Tactic.SplitIfs

namespace BlockExchange.Database

variable {d d' : Database} {t t' : Tables} {draw : UInt64} {versions versions' : List Int}

def IsCurrent (d : Database) : Prop :=
  (upgrades.length : Int) ≤ d.latestVersion ∧ d.latestVersion < 0x100000000

theorem le_latestVersion {n : Int} (hn : n ∈ d.versions) : n ≤ d.latestVersion := by
  unfold latestVersion
  cases hmax : d.versions.max? with
  | none => simp [List.max?_eq_none_iff.mp hmax] at hn
  | some m => exact (List.max?_eq_some_iff.mp hmax).2 n hn

theorem latestVersion_append {n : Int} (h : d.latestVersion ≤ n) :
    ({ d with versions := d.versions ++ [n] } : Database).latestVersion = n := by
  have hmax : (d.versions ++ [n]).max? = some n := by
    apply List.max?_eq_some_iff.mpr
    constructor
    · simp
    · intro b hb
      rcases List.mem_append.mp hb with hb | hb
      · exact Int.le_trans (le_latestVersion hb) h
      · exact Int.le_of_eq (List.mem_singleton.mp hb)
  rw [latestVersion, hmax, Option.getD_some]

theorem versions_of_upgrade {upgrade : Database → Except DatabaseFault Database}
    (hu : upgrade ∈ upgrades) (h : upgrade d = .ok d') : d'.versions = d.versions := by
  obtain rfl : upgrade = createTables := by simpa [upgrades] using hu
  unfold createTables at h
  split at h <;> cases h
  rfl

theorem latestVersion_upgradeBy {upgrade : Database → Except DatabaseFault Database}
    (hu : upgrade ∈ upgrades) {version : Nat} (hlt : d.latestVersion ≤ version)
    (h : d.upgradeBy upgrade version = .ok d') : d'.latestVersion = version := by
  obtain ⟨d₁, hup, hd'⟩ := bind_eq_ok_iff.mp h
  cases hd'
  have hkeep := versions_of_upgrade hu hup
  apply latestVersion_append
  rwa [latestVersion, hkeep]

theorem latestVersion_foldlM {rest : List (Database → Except DatabaseFault Database)} {n : Nat}
    (hrest : ∀ upgrade ∈ rest, upgrade ∈ upgrades) (hn : d.latestVersion = n)
    (h : (rest.zipIdx (n + 1)).foldlM (fun d (upgrade, version) => d.upgradeBy upgrade version) d =
      .ok d') : d'.latestVersion = n + rest.length := by
  induction rest generalizing d n with
  | nil =>
    cases h
    simpa using hn
  | cons upgrade rest ih =>
    rw [List.zipIdx_cons, List.foldlM_cons] at h
    obtain ⟨d₁, hup, hafter⟩ := bind_eq_ok_iff.mp h
    have hle : d.latestVersion ≤ (n + 1 : Nat) := by omega
    have hnext := latestVersion_upgradeBy (hrest _ List.mem_cons_self) hle hup
    rw [ih (fun u hu => hrest u (List.mem_cons_of_mem _ hu)) hnext hafter, List.length_cons]
    omega

theorem migrate_of_isCurrent (h : d.IsCurrent) : d.migrate = .ok d := by
  have hrange : ¬(d.latestVersion < 0 ∨ 0x100000000 ≤ d.latestVersion) := by
    have hpos := h.1
    have hlt := h.2
    omega
  have hnil : upgrades.drop d.latestVersion.toNat = [] := by
    apply List.drop_eq_nil_of_le
    have hle := h.1
    omega
  rw [migrate, if_neg hrange, hnil]
  rfl

theorem isCurrent_of_migrate (h : d.migrate = .ok d') : d'.IsCurrent := by
  by_cases hcurrent : d.IsCurrent
  · rw [migrate_of_isCurrent hcurrent] at h
    cases h
    exact hcurrent
  · rw [migrate] at h
    split_ifs at h with hrange
    have hlen : (upgrades.length : Int) < 0x100000000 := by decide
    have hlt : d.latestVersion < upgrades.length :=
      Int.not_le.mp fun hle => hcurrent ⟨hle, by omega⟩
    obtain ⟨n, hn⟩ := Int.eq_ofNat_of_zero_le (show 0 ≤ d.latestVersion by omega)
    rw [hn, Int.toNat_natCast] at h
    have hlatest := latestVersion_foldlM (fun u hu => List.mem_of_mem_drop hu) hn h
    rw [List.length_drop] at hlatest
    constructor <;> omega

theorem eq_of_migrate {kept : KeptTables} (ht : d.tables = some kept) (h : d.migrate = .ok d') :
    d' = d := by
  by_cases hcurrent : d.IsCurrent
  · rw [migrate_of_isCurrent hcurrent] at h
    cases h
    rfl
  · rw [migrate] at h
    split_ifs at h with hrange
    have hlt : d.latestVersion < 1 := Int.not_le.mp fun hle => hcurrent ⟨hle, by omega⟩
    have hzero : d.latestVersion = 0 := by omega
    have hfirst : d.upgradeBy createTables 1 = .error (.existingTable "index_sequence") := by
      rw [upgradeBy, createTables, ht]
      rfl
    simp [hzero, upgrades, hfirst, bind, Except.bind] at h

theorem openTables_kept
    (h : (Database.mk versions (some t.kept)).openTables draw = .ok (versions', t')) :
    versions' = versions ∧ t' = t := by
  obtain ⟨d, hm, hopen⟩ := bind_eq_ok_iff.mp h
  obtain rfl := eq_of_migrate rfl hm
  cases hopen
  exact ⟨rfl, rfl⟩

theorem openTables_of_isCurrent (h : (Database.mk versions (some t.kept)).IsCurrent) (draw : UInt64) :
    (Database.mk versions (some t.kept)).openTables draw = .ok (versions, t) := by
  rw [openTables, migrate_of_isCurrent h]
  rfl

theorem isCurrent_of_openTables (h : d.openTables draw = .ok (versions, t)) :
    (Database.mk versions (some t.kept)).IsCurrent := by
  obtain ⟨d₁, hm, hopen⟩ := bind_eq_ok_iff.mp h
  have hcurrent := isCurrent_of_migrate hm
  split at hopen <;> cases hopen
  exact hcurrent

end BlockExchange.Database
