import Kv.Foundations.Run
import Kv.Foundations.BitMask
import Kv.Foundations.Slots
import Kv.Foundations.KeyMap
import Kv.Foundations.Fenwick
import Kv.Foundations.Binary64
import Kv.Foundations.Heap
import Kv.Foundations.Bytes
import Kv.Foundations.Lz77
import Kv.Foundations.Decimal
import Kv.Foundations.Gf2
import Kv.Foundations.ReflectedCrc
import Kv.Crc.Crc64
import Kv.Crc.Combine
import Kv.Crc.Speed
import Kv.Foundations.BitString
import Kv.Foundations.Glob
import Kv.Foundations.BitSpread
import Kv.Foundations.Rounding
import Kv.Sds.SplitArgs
import Kv.Multi.Watch
import Kv.Multi.Transaction
import Kv.Multi.Touch
import Kv.Multi.Contract
import Kv.Hashtable.Bucket
import Kv.Hashtable.Table
import Kv.Hashtable.Access
import Kv.Hashtable.Content
import Kv.Hashtable.Chain
import Kv.Hashtable.Compact
import Kv.Hashtable.Invariant
import Kv.Hashtable.Insert
import Kv.Hashtable.Rehash
import Kv.Hashtable.Resize
import Kv.Hashtable.Find
import Kv.Hashtable.Incremental
import Kv.Hashtable.Update
import Kv.Hashtable.Api
import Kv.Hashtable.Refinement
import Kv.Hashtable.Scan
import Kv.Kvstore.Store
import Kv.Kvstore.Tree
import Kv.Kvstore.Index
import Kv.Kvstore.Calls
import Kv.Kvstore.Queries
import Kv.Kvstore.Scan
import Kv.Acl.Selector
import Kv.Acl.Describe
import Kv.Zset.Listpack
import Kv.Zset.Encoding
import Kv.Stream.Pel
import Kv.Stream.PelView
import Kv.Stream.Groups
import Kv.Stream.PelConsistency
import Kv.Stream.Dup
import Kv.Stream.StreamConsistency
import Kv.Intset.Intset
import Kv.Intset.Layout
import Kv.Intset.Search
import Kv.Intset.Update
import Kv.Intset.Calls
import Kv.Lzf.Decompress
import Kv.Lzf.Compress
import Kv.Util.Conversions
import Kv.Rdb.Length
import Kv.Rdb.String
import Kv.Sds.Header
import Kv.Sds.Room
import Kv.Bitops.Bitfield
import Kv.Bitops.Overflow
import Kv.Lrulfu.Values
import Kv.Lrulfu.Reads
import Kv.Sds.Range
import Kv.Sds.Edit
import Kv.Sds.Calls
import Kv.Util.Glob
import Kv.Geo.Geohash
import Kv.Geo.Neighbors
import Kv.Foundations.Subsequence
import Kv.Foundations.PackedFields
import Kv.Hll.Dense
import Kv.Hll.DenseSimd
import Kv.Hll.Sparse
import Kv.Hll.SparseSet
import Kv.Hll.Add
import Kv.TString.Lcs
import Kv.TString.LcsRanges
import Kv.Hash.Entry
import Kv.Vset.Vset
import Kv.Listpack.Entry
import Kv.Listpack.Random
import Kv.Listpack.Find
import Kv.Sds.Repr
import Kv.Bitops.Bitpos
import Kv.Bitops.Range
import Kv.Foundations.Lanes
import Kv.Foundations.Simd
import Kv.Bitops.Popcount
import Kv.Bitops.PopcountSimd
import Kv.Foundations.Avx512
import Kv.Util.String2llAvx512
import Kv.Bitops.Bitop
