import Konfig.Kube
import Konfig.Lib.ListWatch
import Konfig.ValueParse

/-!
# What an API server stores

Objects with metadata under the next resource version, one write after the other, whoever makes
them.  The revision an object is of can be read off its metadata, and since then it was not
written again.

* `Written`: one write, or one delete.
* `Dated`: what holds of every history of such writes.
-/

namespace Konfig

open Lib

variable {V : Type}

/-- What is stored under a key: an object of that name, under the next resource version. -/
structure StoredAs (rev : ℕ) (key : Key) (metadata : ObjectMeta) : Prop where
  name : metadata.name = some key.name
  ns : metadata.ns = some key.ns
  rv : metadata.resourceVersion = some (toString rev)

/-- One write, or one delete. -/
def Written (metaOf : V → ObjectMeta) (s s' : Revisions Key V) : Prop :=
  ∃ key value, s' = s.write key value ∧ ∀ obj ∈ value, StoredAs (s.rev + 1) key (metaOf obj)

/-- Every object is stored since its resource version, and one key is written at a time. -/
structure Dated (metaOf : V → ObjectMeta) (s : Revisions Key V) : Prop where
  sequential : s.Sequential
  stored : ∀ n key obj, s.asOf n key = some obj →
    ∃ m ≤ n, StoredAs m key (metaOf obj) ∧ ∀ j, m ≤ j → j ≤ n → s.asOf j key = some obj

variable {metaOf : V → ObjectMeta}

theorem dated_empty (h : ∀ w : Logged Key V, w ∈ ([] : List (Logged Key V)) → w.rev ≤ 0) :
    Dated metaOf ⟨0, [], h⟩ where
  sequential _ hr := absurd hr (Nat.not_lt_zero _)
  stored _ _ _ hobj := by cases hobj

theorem Dated.written {s s' : Revisions Key V} (h : Dated metaOf s) (hw : Written metaOf s s') :
    s.Extends s' ∧ Dated metaOf s' := by
  obtain ⟨key, value, rfl, hvalue⟩ := hw
  refine ⟨Revisions.extends_write _ _ _, h.sequential.write key value, fun n k obj hobj => ?_⟩
  rw [Revisions.asOf_write] at hobj
  by_cases hnew : s.rev + 1 ≤ n ∧ key = k
  · obtain ⟨hn, rfl⟩ := hnew
    rw [if_pos ⟨hn, rfl⟩] at hobj
    refine ⟨s.rev + 1, hn, hvalue obj hobj, fun j hj _ => ?_⟩
    rw [Revisions.asOf_write, if_pos ⟨hj, rfl⟩]
    exact hobj
  · rw [if_neg hnew] at hobj
    obtain ⟨m, hm, hstored, hsame⟩ := h.stored n k obj hobj
    refine ⟨m, hm, hstored, fun j hj hjn => ?_⟩
    rw [Revisions.asOf_write, if_neg fun hlater => hnew ⟨hlater.1.trans hjn, hlater.2⟩]
    exact hsame j hj hjn

/-! ### Resource versions -/

/-- The revision that a resource version writes. -/
def revisionOf (resourceVersion : String) : ℕ := valueOf resourceVersion.toList

theorem revisionOf_toString (rev : ℕ) : revisionOf (toString rev) = rev := by
  rw [revisionOf, toList_toString_nat]
  exact Nat.ofDigitChars_toDigits (by decide) (by decide)

/-- A reader who files what is read under its key and revision reads a dated history in order. -/
theorem Dated.ordered {W : Type} {R : Reader Key V W} {s : Revisions Key V} (h : Dated metaOf s)
    (hread : ∀ rev key obj k w, StoredAs rev key (metaOf obj) → R.read obj = some (k, w) →
      k = key ∧ R.rank w = rev) : R.Ordered s := by
  intro n key obj p hobj hp
  obtain ⟨m, hm, hstored, hsame⟩ := h.stored n key obj hobj
  obtain ⟨hkey, hrank⟩ := hread m key obj p.1 p.2 hstored hp
  rw [hrank]
  exact ⟨hkey, hm, hsame⟩

end Konfig
