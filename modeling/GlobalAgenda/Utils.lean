import GlobalAgenda.Lossless
import GlobalAgenda.Unambiguous

namespace GlobalAgenda.Utils

open Base.Codes Lossless Unambiguous

def valueToHex (val width : Nat) : String :=
  String.ofList (((Nat.toDigits 16 val).map Char.toUpper).leftpad width '0')

def toHexBuffer (buf : List UInt8) : String :=
  buf.foldl (fun ss b => ss ++ valueToHex b.toNat 2 ++ " ") ""

theorem toHex_eq (val width : Nat) : DataTypeParser.toHex val width = "0x" ++ valueToHex val width :=
  rfl

theorem valueToHex_injective {val val' width : Nat}
    (h : (valueToHex val width).toList = (valueToHex val' width).toList) : val = val' := by
  refine @toHex_injective val val' width ?_
  rw [toHex_eq, toHex_eq, String.toList_append, String.toList_append, h]

theorem valueToHex_ends (val width : Nat) : ' ' ∉ (valueToHex val width).toList := by
  intro h
  have hmem : ' ' ∈ (DataTypeParser.toHex val width).toList := by
    rw [toHex_eq, String.toList_append]
    exact List.mem_append_right _ h
  exact absurd (toHex_mem hmem) (by decide)

theorem prefixFree_byte : PrefixFree (fun _ => True)
    (fun b : UInt8 => (valueToHex b.toNat 2).toList ++ [' ']) :=
  .delimited ' ' (fun b _ => valueToHex_ends b.toNat 2)
    (fun _ _ _ _ h => UInt8.toNat_inj.mp (valueToHex_injective h))

theorem toHexBuffer_chars (buf : List UInt8) : (toHexBuffer buf).toList =
    buf.flatMap (fun b => (valueToHex b.toNat 2).toList ++ [' ']) := by
  have hfold : ∀ ss : String, (buf.foldl (fun ss b => ss ++ valueToHex b.toNat 2 ++ " ") ss).toList =
      ss.toList ++ buf.flatMap (fun b => (valueToHex b.toNat 2).toList ++ [' ']) := by
    induction buf with
    | nil => simp
    | cons b buf ih =>
      intro ss
      rw [List.foldl_cons, ih, List.flatMap_cons, String.toList_append, String.toList_append,
        List.append_assoc, List.append_assoc, List.append_assoc]
      rfl
  exact hfold ""

theorem toHexBuffer_injective {buf buf' : List UInt8} (h : toHexBuffer buf = toHexBuffer buf') :
    buf = buf' := by
  have hchars := congrArg String.toList h
  rw [toHexBuffer_chars, toHexBuffer_chars] at hchars
  exact prefixFree_byte.stream (by simp) (by simp) (by simp) hchars

/-- Frames of which the same dump is printed hold the same packets. -/
theorem dump_tells (t u : TcpPacket) (ht : Writable EnumDataTypes.typeOf t)
    (hu : Writable EnumDataTypes.typeOf u) (h : toHexBuffer t.build.1 = toHexBuffer u.build.1) :
    contents t = contents u := by
  obtain ⟨ws, hw, hsize, hws⟩ := ht.messages
  obtain ⟨vs, hv, hsize', hvs⟩ := hu.messages
  obtain ⟨hwbytes, hwdata⟩ := Prod.mk.inj hw
  obtain ⟨hvbytes, hvdata⟩ := Prod.mk.inj hv
  have hbytes := toHexBuffer_injective h
  rw [hwbytes, hvbytes] at hbytes
  have happend := congrArg (· ++ []) hbytes
  obtain ⟨rfl, _⟩ := prefixFree_frame ws vs [] [] ⟨hsize, hws⟩ ⟨hsize', hvs⟩ happend
  exact hwdata.trans hvdata.symm

theorem named_dump : contents { packets := [named 0] } = contents { packets := [named 1] } := by
  have hbuild : ({ packets := [named 0] } : TcpPacket).build.1 =
      ({ packets := [named 1] } : TcpPacket).build.1 := by decide
  exact dump_tells _ _ (named_writable 0) (named_writable 1) (congrArg toHexBuffer hbuild)

end GlobalAgenda.Utils
