import VortexNet.Http.Picohttpparser

/-!
# Chunked bodies

The grammar of `Transfer-Encoding: chunked`: chunks with their size in
hexadecimal, a last chunk of size zero, and trailer fields. An extension is any
text that cannot be part of the size and does not end the line.
-/

namespace VortexNet

open Picohttpparser

def CRLF : Bytes := [CR, LF]

def isHexDigit (c : UInt8) : Bool := isDigit c ∨ 65 ≤ c ∧ c ≤ 70 ∨ 97 ≤ c ∧ c ≤ 102

def hexValue (c : UInt8) : Nat :=
  if isDigit c then c.toNat - 48 else if c ≤ 70 then c.toNat - 55 else c.toNat - 87

def hexadecimal (digits : Bytes) : Nat := digits.foldl (fun n c => n * 16 + hexValue c) 0

def isLine (text : Bytes) : Bool := text.all fun c => c ≠ CR ∧ c ≠ LF

def isExtension (text : Bytes) : Bool :=
  isLine text && text.head?.all fun c => c = 59 ∨ isBlank c

structure Chunk where
  size : Bytes
  ext : Bytes := []
  data : Bytes
  size_digits : size ≠ [] ∧ size.all isHexDigit
  size_data : hexadecimal size = data.length
  data_ne : data ≠ []
  ext_valid : isExtension ext

def Chunk.bytes (c : Chunk) : Bytes := c.size ++ c.ext ++ CRLF ++ c.data ++ CRLF

structure Trailer where
  name : Bytes
  value : Bytes
  name_token : name ≠ [] ∧ name.all token_char_map
  value_line : isLine value

def Trailer.bytes (t : Trailer) : Bytes := t.name ++ ascii ":" ++ t.value ++ CRLF

structure ChunkedBody where
  chunks : List Chunk
  zeros : Bytes := ascii "0"
  ext : Bytes := []
  trailers : List Trailer := []
  zeros_zero : zeros ≠ [] ∧ zeros.all (· = 48)
  ext_valid : isExtension ext

namespace ChunkedBody

def bytes (b : ChunkedBody) : Bytes :=
  b.chunks.flatMap Chunk.bytes ++ (b.zeros ++ b.ext ++ CRLF) ++
    (b.trailers.flatMap Trailer.bytes ++ CRLF)

theorem bytes_plain {b : ChunkedBody} (he : b.ext = []) (ht : b.trailers = []) :
    ∃ front, b.bytes = front ++ (48 :: CRLF ++ CRLF) := by
  obtain ⟨hne, hall⟩ := b.zeros_zero
  have hlast : b.zeros.getLast hne = 48 := by
    simpa using List.all_eq_true.mp hall _ (List.getLast_mem hne)
  refine ⟨b.chunks.flatMap Chunk.bytes ++ b.zeros.dropLast, ?_⟩
  have hz : b.zeros = b.zeros.dropLast ++ [48] := by
    rw [← hlast]
    exact (List.dropLast_concat_getLast hne).symm
  simp only [bytes, he, ht, List.flatMap_nil, List.append_nil, List.nil_append]
  conv_lhs => rw [hz]
  simp

end ChunkedBody

end VortexNet
