import TorrentFs.Lib.Text
import TorrentFs.Lib.Word

/-!
# Piece keys

The cache names a piece by `{info_hash}:piece:{index}` and turns that key into the path
`pieces/<info_hash>/<key>`. `isValidPieceKey` is the whitelist of `is_valid_piece_key`; every
path, registration and scan goes through it.
-/

namespace TorrentFs.Cache

open Text Word

def cacheMetadataFile : Str := "cache_metadata.txt".toList

def cacheMetadataScratchPrefix : Str := "cache_metadata.txt.".toList

def cacheMetadataScratchSuffix : Str := ".tmp".toList

def incompleteSuffix : Str := ".incomplete".toList

def pieceKeySeparator : Str := ":piece:".toList

def v1InfoHashHexLen : ℕ := 40

def v2InfoHashHexLen : ℕ := 64

def isMetadataScratchName (name : Str) : Bool :=
  cacheMetadataScratchPrefix.isPrefixOf name && cacheMetadataScratchSuffix.isSuffixOf name

def isLowerHexDigit (c : Char) : Bool := isAsciiDigit c || ('a' ≤ c && c ≤ 'f')

/-- Whether a key has the shape the write side produces: 40 or 64 lowercase hex digits, the
separator, and a decimal index in the range of an `i32`. -/
def isValidPieceKey (pieceKey : Str) : Bool :=
  match splitOnce pieceKeySeparator pieceKey with
  | none => false
  | some (infoHash, index) =>
    (String.utf8Len infoHash == v1InfoHashHexLen ||
        String.utf8Len infoHash == v2InfoHashHexLen) &&
      infoHash.all isLowerHexDigit && !index.isEmpty && index.all isAsciiDigit &&
      (parseSigned i32Max index).isSome

def pieceKeyInfoHash (pieceKey : Str) : Str :=
  ((splitOnce pieceKeySeparator pieceKey).map Prod.fst).getD []

def pieceKey (infoHash : Str) (pieceIndex : ℤ) : Str :=
  infoHash ++ pieceKeySeparator ++ (toString pieceIndex).toList

def sampleHash : Str := List.replicate 40 'a'

def sampleKey : Str := pieceKey sampleHash 0

end TorrentFs.Cache
