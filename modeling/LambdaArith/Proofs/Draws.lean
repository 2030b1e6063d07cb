import LambdaArith.Expr.Sample
import LambdaArith.Proofs.TokenClass

/-!
# What can be drawn

A drawing gives exactly the values with a property if it always succeeds with such a value, and each
of them comes out for some bytes, whatever bytes follow. This is shown for each way of drawing, from
a single byte up.
-/

namespace LambdaArith

namespace Draw

variable {α β : Type}

/-- The drawing succeeds for all bytes with a value that fulfils `P`, and gives each of these values
for some bytes in front of any others. -/
structure Gives (draw : Draw α) (P : α → Prop) : Prop where
  sound : ∀ bytes, ∃ a rest, draw.run bytes = .ok (a, rest) ∧ P a
  complete : ∀ a, P a → ∃ bytes, ∀ rest, draw.run (bytes ++ rest) = .ok (a, rest)

/-- Nothing is drawn. -/
theorem Gives.pure (a : α) : Gives (Pure.pure a) (· = a) where
  sound bytes := ⟨a, bytes, rfl, rfl⟩
  complete := by
    rintro _ rfl
    exact ⟨[], fun _ => rfl⟩

/-- One drawing after another, which may depend on it. -/
theorem Gives.bind {draw : Draw α} {next : α → Draw β} {P : α → Prop} {Q : α → β → Prop}
    (hdraw : Gives draw P) (hnext : ∀ a, P a → Gives (next a) (Q a)) :
    Gives (draw >>= next) fun b => ∃ a, P a ∧ Q a b where
  sound bytes := by
    obtain ⟨a, middle, ha, hP⟩ := hdraw.sound bytes
    obtain ⟨b, rest, hb, hQ⟩ := (hnext a hP).sound middle
    refine ⟨b, rest, ?_, a, hP, hQ⟩
    rw [StateT.run_bind, ha]
    exact hb
  complete := by
    rintro b ⟨a, hP, hQ⟩
    obtain ⟨first, hfirst⟩ := hdraw.complete a hP
    obtain ⟨second, hsecond⟩ := (hnext a hP).complete b hQ
    refine ⟨first ++ second, fun rest => ?_⟩
    rw [StateT.run_bind, List.append_assoc, hfirst]
    exact hsecond rest

/-- The same values, said in another way. -/
theorem Gives.congr {draw : Draw α} {P Q : α → Prop} (h : Gives draw P) (hiff : ∀ a, P a ↔ Q a) :
    Gives draw Q := by
  rwa [← funext fun a => propext (hiff a)]

/-- A byte, which is zero when there is none. -/
theorem gives_byte : Gives byte (· < 256) where
  sound bytes := by
    cases bytes with
    | nil => exact ⟨0, [], rfl, by omega⟩
    | cons b rest => exact ⟨b.toNat, rest, rfl, b.toNat_lt⟩
  complete n hn := ⟨[UInt8.ofNat n], fun rest => by
    have hbyte : (UInt8.ofNat n).toNat = n := UInt8.toNat_ofNat_of_lt' hn
    exact congrArg (fun value => Except.ok (value, rest)) hbyte⟩

/-- A natural up to one that fits in a byte. -/
theorem gives_upTo {n : Nat} (hn : n < 256) : Gives (upTo n) (· ≤ n) := by
  refine (gives_byte.bind fun b _ => Gives.pure (b % (n + 1))).congr fun k => ?_
  constructor
  · rintro ⟨b, _, rfl⟩
    exact Nat.le_of_lt_succ (Nat.mod_lt _ n.succ_pos)
  · intro hk
    exact ⟨k, by omega, (Nat.mod_eq_of_lt (by omega)).symm⟩

/-- A natural of so many bytes. -/
theorem gives_word (count : Nat) : Gives (word count) (· < Nat.pow 256 count) := by
  induction count with
  | zero => exact (Gives.pure 0).congr fun n => by simp
  | succ count ih =>
    refine (gives_byte.bind fun low _ => ih.bind fun high _ =>
      Gives.pure (low + 256 * high)).congr fun n => ?_
    have hpow : Nat.pow 256 (count + 1) = 256 * Nat.pow 256 count := Nat.pow_succ'
    rw [hpow]
    constructor
    · rintro ⟨low, hlow, high, hhigh, rfl⟩
      omega
    · intro hn
      exact ⟨n % 256, Nat.mod_lt _ (by decide), n / 256, by omega, (Nat.mod_add_div n 256).symm⟩

/-- The choice at a place that exists. -/
theorem gives_pick {choices : List α} {index : Nat} (h : index < choices.length) :
    Gives (pick choices index) fun choice => choices[index]? = some choice := by
  rw [pick, List.getElem?_eq_getElem h]
  exact (Gives.pure choices[index]).congr fun choice => by rw [Option.some.injEq, eq_comm]

/-- One of the choices, if there are some and a byte is enough for their number. -/
theorem gives_choose {choices : List α} (hne : choices ≠ []) (hlength : choices.length ≤ 256) :
    Gives (choose choices) (· ∈ choices) := by
  have hpos := List.length_pos_iff.mpr hne
  refine ((gives_upTo (by omega)).bind fun index hindex =>
    gives_pick (show index < choices.length by omega)).congr fun choice => ?_
  rw [List.mem_iff_getElem?]
  constructor
  · rintro ⟨index, _, hindex⟩
    exact ⟨index, hindex⟩
  · rintro ⟨index, hindex⟩
    have hlt := (List.getElem?_eq_some_iff.mp hindex).1
    exact ⟨index, by omega, hindex⟩

/-- As many values of a kind as are wanted. -/
theorem gives_repeated {draw : Draw α} {P : α → Prop} (h : Gives draw P) (count : Nat) :
    Gives (repeated draw count) fun values => values.length = count ∧ ∀ a ∈ values, P a := by
  induction count with
  | zero =>
    refine (Gives.pure []).congr fun values => ?_
    rw [List.length_eq_zero_iff]
    refine ⟨fun heq => ⟨heq, ?_⟩, And.left⟩
    rw [heq]
    nofun
  | succ count ih =>
    refine (h.bind fun first _ => ih.bind fun rest _ => Gives.pure (first :: rest)).congr
      fun values => ?_
    constructor
    · rintro ⟨first, hfirst, rest, ⟨rfl, hrest⟩, rfl⟩
      exact ⟨rfl, List.forall_mem_cons.mpr ⟨hfirst, hrest⟩⟩
    · rintro ⟨hlength, hvalues⟩
      obtain ⟨first, rest, rfl⟩ := List.exists_cons_of_length_eq_add_one hlength
      obtain ⟨hfirst, hrest⟩ := List.forall_mem_cons.mp hvalues
      exact ⟨first, hfirst, rest, ⟨Nat.succ.inj hlength, hrest⟩, rfl⟩

/-- Names are only left out. -/
theorem distinct_sublist (names : List String) : (distinct names).Sublist names := by
  induction names with
  | nil => exact List.Sublist.slnil
  | cons name rest ih => exact (List.filter_sublist.trans ih).cons_cons name

/-- No name is kept twice. -/
theorem nodup_distinct (names : List String) : (distinct names).Nodup := by
  induction names with
  | nil => exact List.nodup_nil
  | cons name rest ih =>
    refine List.nodup_cons.mpr ⟨fun hmem => ?_, ih.filter _⟩
    exact of_decide_eq_true (List.mem_filter.mp hmem).2 rfl

/-- Names that differ from each other are all kept. -/
theorem distinct_of_nodup {names : List String} (h : names.Nodup) : distinct names = names := by
  induction names with
  | nil => rfl
  | cons name rest ih =>
    obtain ⟨hname, hrest⟩ := List.nodup_cons.mp h
    rw [distinct, ih hrest, List.filter_eq_self.mpr]
    rintro other hother
    exact decide_eq_true fun heq => hname (heq ▸ hother)

end Draw

end LambdaArith
