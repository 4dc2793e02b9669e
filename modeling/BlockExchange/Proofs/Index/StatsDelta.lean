import BlockExchange.Index.StatsDelta
import Mathlib.Algebra.BigOperators.Group.List.Basic

namespace BlockExchange

namespace Weight

@[ext] theorem ext {a b : Weight} (hfiles : a.files = b.files) (hdirs : a.dirs = b.dirs)
    (hsize : a.size = b.size) : a = b := by
  cases a
  cases b
  simp_all

instance : Zero Weight := ⟨{}⟩

instance : Neg Weight := ⟨fun a => ⟨-a.files, -a.dirs, -a.size⟩⟩

@[simp] theorem zero_files : (0 : Weight).files = 0 := rfl
@[simp] theorem zero_dirs : (0 : Weight).dirs = 0 := rfl
@[simp] theorem zero_size : (0 : Weight).size = 0 := rfl

@[simp] theorem add_files (a b : Weight) : (a + b).files = a.files + b.files := rfl
@[simp] theorem add_dirs (a b : Weight) : (a + b).dirs = a.dirs + b.dirs := rfl
@[simp] theorem add_size (a b : Weight) : (a + b).size = a.size + b.size := rfl

@[simp] theorem neg_files (a : Weight) : (-a).files = -a.files := rfl
@[simp] theorem neg_dirs (a : Weight) : (-a).dirs = -a.dirs := rfl
@[simp] theorem neg_size (a : Weight) : (-a).size = -a.size := rfl

@[simp] theorem sub_files (a b : Weight) : (a - b).files = a.files - b.files := rfl
@[simp] theorem sub_dirs (a b : Weight) : (a - b).dirs = a.dirs - b.dirs := rfl
@[simp] theorem sub_size (a b : Weight) : (a - b).size = a.size - b.size := rfl

instance : AddCommGroup Weight where
  add_assoc a b c := by ext <;> simp [Int.add_assoc]
  zero_add a := by ext <;> simp
  add_zero a := by ext <;> simp
  add_comm a b := by ext <;> simp [Int.add_comm]
  neg_add_cancel a := by ext <;> simp
  sub_eq_add_neg a b := by ext <;> simp [Int.sub_eq_add_neg]
  nsmul := nsmulRec
  zsmul := zsmulRec

@[simp] theorem ofRecord_withSequence (r : FileRecord) (n : Int) :
    ofRecord (r.withSequence n) = ofRecord r := rfl

theorem ofRecord?_eq_elim (old : Option FileRecord) : ofRecord? old = old.elim 0 ofRecord := by
  cases old <;> rfl

end Weight

namespace StatsDelta

variable {ι : Type} {old : ι → Option FileRecord} {new : ι → FileRecord}

theorem folder_foldl (batch : List ι) (d : StatsDelta) :
    (batch.foldl (fun d i => d.fold (old i) (new i)) d).folder = d.folder := by
  induction batch generalizing d with
  | nil => rfl
  | cons i rest ih => rw [List.foldl_cons, ih, fold]

theorem lastModified_foldl (batch : List ι) (d : StatsDelta) :
    (batch.foldl (fun d i => d.fold (old i) (new i)) d).lastModified =
      (batch.getLast?.map fun i => (new i).lastModified).or d.lastModified := by
  induction batch generalizing d with
  | nil => rfl
  | cons i rest ih =>
    rw [List.foldl_cons, ih, List.getLast?_cons]
    cases rest.getLast? <;> rfl

theorem change_foldl (batch : List ι) (d : StatsDelta) :
    (batch.foldl (fun d i => d.fold (old i) (new i)) d).change =
      d.change + (batch.map fun i => Weight.ofRecord (new i) - Weight.ofRecord? (old i)).sum := by
  induction batch generalizing d with
  | nil => exact (add_zero d.change).symm
  | cons i rest ih =>
    rw [List.foldl_cons, ih, fold, List.map_cons, List.sum_cons, ← add_assoc]
    congr 1
    ext <;> simp <;> omega

end StatsDelta

end BlockExchange
