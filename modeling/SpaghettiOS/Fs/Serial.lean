import SpaghettiOS.Fs.Writes
import SpaghettiOS.Lib.Pieces

/-!
# Sending on the serial line

`serial_send` of `libserial`, for every sequence of results the network stack can give.
The loop counts what has been taken but passes the same buffer and the same length
again, so that each call of the stack takes its bytes from the front.
-/

namespace SpaghettiOS.Serial

open Pieces (InPlace inPlace_map_take_iff flatten_prefix_iff)

/-- `serial_send` with the results of `pico_socket_sendto`, when `totalSent` bytes have been
counted: the bytes that the stack takes, and what is returned when the loop ends. The counter is
an `int`, and exceeds its range only when more than `len` bytes have been taken. -/
def serialSend (data : List UInt8) : Int → List Int → List UInt8 × Option Int
  | totalSent, [] =>
      ([], if totalSent < data.length then none else some data.length)
  | totalSent, sent :: results =>
      if totalSent < data.length then
        if sent = -1 then ([], some (-1))
        else if sent = 0 then ([], some totalSent)
        else
          let rest := serialSend data (totalSent + sent) results
          (data.take sent.toNat ++ rest.1, rest.2)
      else ([], some data.length)

/-- The results of `pico_socket_sendto` for a buffer of `len` bytes. -/
def Results (len : Nat) (results : List Int) : Prop := ∀ r ∈ results, -1 ≤ r ∧ r ≤ len

def SentOnce (data : List UInt8) (results : List Int) : Prop :=
  (serialSend data 0 results).1 <+: data ∧ ∀ r, (serialSend data 0 results).2 = some r → 0 ≤ r →
      (serialSend data 0 results).1 = data.take r.toNat

/-- How many bytes are taken by each of the calls that take some. -/
def taken (len : Nat) : Nat → List Int → List Nat
  | _, [] => []
  | total, sent :: results =>
      if total < len ∧ 0 < sent then sent.toNat :: taken len (total + sent.toNat) results else []

variable {len : Nat} {r total sent : Int}

section
variable {data : List UInt8} {results : List Int}

lemma Results.head (h : Results len (r :: results)) : -1 ≤ r ∧ r ≤ len :=
  h r List.mem_cons_self

lemma Results.tail (h : Results len (r :: results)) : Results len results :=
  fun r' hr' => h r' (List.mem_cons_of_mem r hr')

lemma serialSend_cons (data : List UInt8) (results : List Int)
    (htotal : total < data.length) (hsent : 0 < sent) : serialSend data total (sent :: results) =
      (data.take sent.toNat ++ (serialSend data (total + sent) results).1,
        (serialSend data (total + sent) results).2) := by
  simp only [serialSend, htotal, if_true]
  rw [if_neg (by omega), if_neg (by omega)]

lemma serialSend_stops (hsent : -1 ≤ sent) (hstop : ¬ (total < data.length ∧ 0 < sent)) :
    (serialSend data total (sent :: results)).1 = [] ∧
      ∀ r, (serialSend data total (sent :: results)).2 = some r → 0 ≤ r →
        r = min total data.length := by
  rw [serialSend]
  split
  · rename_i htotal
    split
    · refine ⟨rfl, fun r hr hr0 => ?_⟩
      cases hr
      omega
    · rw [if_pos (by omega)]
      refine ⟨rfl, fun r hr _ => ?_⟩
      cases hr
      omega
  · refine ⟨rfl, fun r hr _ => ?_⟩
    cases hr
    omega

lemma serialSend_fst (hres : Results data.length results) (total : Nat) :
    (serialSend data total results).1
      = ((taken data.length total results).map data.take).flatten := by
  induction results generalizing total with
  | nil => rfl
  | cons sent results ih =>
    by_cases hgo : (total : Int) < data.length ∧ 0 < sent
    · have hcast : (total : Int) + sent = ((total + sent.toNat : Nat) : Int) := by omega
      rw [serialSend_cons data results hgo.1 hgo.2, taken, if_pos (by omega), hcast]
      simp only [List.map_cons, List.flatten_cons, ih hres.tail]
    · rw [(serialSend_stops hres.head.1 hgo).1, taken, if_neg (by omega)]
      rfl

lemma serialSend_snd (hres : Results data.length results) (total : Nat)
    (hr : (serialSend data total results).2 = some r) (h0 : 0 ≤ r) :
    r = min (total + (serialSend data total results).1.length : Int) data.length := by
  induction results generalizing total with
  | nil =>
    simp only [serialSend] at hr ⊢
    split at hr
    · cases hr
    · cases hr
      simp only [List.length_nil]
      omega
  | cons sent results ih =>
    have hsent := hres.head
    by_cases hgo : (total : Int) < data.length ∧ 0 < sent
    · have hcast : (total : Int) + sent = ((total + sent.toNat : Nat) : Int) := by omega
      rw [serialSend_cons data results hgo.1 hgo.2, hcast] at hr ⊢
      have hrest := ih hres.tail (total + sent.toNat) hr
      simp only [List.length_append, List.length_take]
      omega
    · rw [(serialSend_stops hsent.1 hgo).1, (serialSend_stops hsent.1 hgo).2 r hr h0]
      simp

lemma taken_le (hres : Results len results) (total : Nat) :
    ∀ c ∈ taken len total results, 0 < c ∧ c ≤ len := by
  induction results generalizing total with
  | nil => exact fun c hc => absurd hc List.not_mem_nil
  | cons sent results ih =>
    have hsent := hres.head
    rw [taken]
    split
    · intro c hc
      rcases List.mem_cons.mp hc with rfl | hc
      · omega
      · exact ih hres.tail _ c hc
    · exact fun c hc => absurd hc List.not_mem_nil

end

lemma sentOnce_iff_inPlace {data : List UInt8} {results : List Int}
    (hres : Results data.length results) :
    SentOnce data results ↔ InPlace data ((taken data.length 0 results).map data.take) := by
  rw [← flatten_prefix_iff]
  have hfst := serialSend_fst hres 0
  rw [Nat.cast_zero] at hfst
  rw [← hfst]
  refine ⟨fun h => h.1, fun h => ⟨h, fun r hr h0 => ?_⟩⟩
  have hlen := h.length_le
  have hret := serialSend_snd hres 0 hr h0
  have hr' : r.toNat = (serialSend data 0 results).1.length := by
    simp only [Nat.cast_zero, zero_add] at hret
    omega
  rw [hr']
  exact List.prefix_iff_eq_take.mp h

/-- The data is sent once and in order exactly if every call that takes bytes takes what
the data has at the place the calls before it have come to. -/
theorem sentOnce_iff (data : List UInt8) (results : List Int)
    (hres : Results data.length results) :
    SentOnce data results ↔ ∀ i, (hi : i < (taken data.length 0 results).length) →
        data.take (taken data.length 0 results)[i]
          <+: data.drop ((taken data.length 0 results).take i).sum := by
  rw [sentOnce_iff_inPlace hres]
  exact inPlace_map_take_iff fun c hc => (taken_le hres 0 c hc).2

theorem sentOnce_iff_equal : SentOnce [97, 97] [1, 1] :=
  (sentOnce_iff [97, 97] [1, 1] (by unfold Results; decide)).mpr (by decide)

theorem serialSend_repeats :
    Results [97, 98].length [1, 1] ∧ serialSend [97, 98] 0 [1, 1] = ([97, 97], some 2) ∧
      ¬ SentOnce [97, 98] [1, 1] := by
  refine ⟨by unfold Results; decide, by decide, ?_⟩
  unfold SentOnce
  decide

end SpaghettiOS.Serial
