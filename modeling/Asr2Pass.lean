import Asr2Pass.Vad.WindowDetector
import Asr2Pass.Vad.E2EVadModel
import Asr2Pass.Vad.BufferLemmas
import Asr2Pass.Vad.Refinement
import Asr2Pass.Vad.Recording
import Asr2Pass.Vad.OnlineAnswers
import Asr2Pass.Vad.OfflineSegments
import Asr2Pass.Library.BinaryRounding
import Asr2Pass.Frontend.Lfr
import Asr2Pass.Frontend.OnlineLfr
import Asr2Pass.Frontend.ExtractFeats
import Asr2Pass.Frontend.StreamedFeats
import Asr2Pass.TwoPass.Frames
import Asr2Pass.TwoPass.Groups
import Asr2Pass.Library.Runs
import Asr2Pass.Library.Roundings
import Asr2Pass.Library.BackOff
import Asr2Pass.Hotwords.BiasLm
import Asr2Pass.Itn.Utf8String
import Asr2Pass.Itn.TokenParser
import Asr2Pass.Hotwords.PrefixTree
import Asr2Pass.TwoPass.Consistency
import Asr2Pass.TwoPass.LinearResample
import Asr2Pass.TwoPass.ResampleTicks
import Asr2Pass.TwoPass.PcmLoading
import Asr2Pass.Library.Chains
import Asr2Pass.Library.LittleEndian
import Asr2Pass.TwoPass.WaveHeader
import Asr2Pass.TwoPass.LoadWav
import Asr2Pass.TwoPass.Session
import Asr2Pass.TwoPass.ClientChunks
import Asr2Pass.TwoPass.Reached
import Asr2Pass.TwoPass.EndWithoutStart
import Asr2Pass.Server.Connection
import Asr2Pass.Server.OnMessage
import Asr2Pass.Server.AccessNum
import Asr2Pass.Server.DecoderEnds
import Asr2Pass.Server.Delivery
import Asr2Pass.Server.TextFields
import Asr2Pass.Server.TextSafety
import Asr2Pass.Vad.AllReset
import Asr2Pass.Vad.Alignment
import Asr2Pass.Online.StreamedCif
import Asr2Pass.Library.IntegrateAndFire
import Asr2Pass.Online.CifSearch
import Asr2Pass.Online.OverlapChunk
import Asr2Pass.Online.ScoredRows
import Asr2Pass.Online.ChunkGeometry
import Asr2Pass.Online.ContextRows
import Asr2Pass.Online.ResetState
import Asr2Pass.Online.RowLists
import Asr2Pass.Online.ChunkSizes
import Asr2Pass.Ctc.ContextGraph
import Asr2Pass.Ctc.CtcPrefixDecoder
import Asr2Pass.Library.Alignments
import Asr2Pass.Ctc.TokenPassing
import Asr2Pass.Ctc.HotwordContext
import Asr2Pass.Ctc.Search
import Asr2Pass.Ctc.LabelTimes
import Asr2Pass.Ctc.TimedResults
import Asr2Pass.Ctc.ExactSearch
import Asr2Pass.Ctc.GreedySearch
import Asr2Pass.Ctc.WfstDecoder
import Asr2Pass.Offline.CutSplit
import Asr2Pass.Offline.FetchDynamic
import Asr2Pass.Offline.Batches
import Asr2Pass.Offline.SharedVad
import Asr2Pass.Text.Strings
import Asr2Pass.Text.Numbers
import Asr2Pass.Text.Splitting
import Asr2Pass.Text.Vocab
import Asr2Pass.Text.SharedVocab
import Asr2Pass.Text.Detokenize
import Asr2Pass.Text.ChunkedText
import Asr2Pass.Text.Utf8
import Asr2Pass.Library.SelfDelimiting
import Asr2Pass.Text.Charset
import Asr2Pass.Punctuation.Tokenizer
import Asr2Pass.Library.Decorations
import Asr2Pass.Library.Payouts
import Asr2Pass.Punctuation.Windows
import Asr2Pass.Punctuation.CTTransformer
import Asr2Pass.Punctuation.Retokenize
import Asr2Pass.Punctuation.CTTransformerOnline
import Asr2Pass.Punctuation.FailedInference
import Asr2Pass.Punctuation.BatchCount
import Asr2Pass.Punctuation.Infer
import Asr2Pass.Timestamps.PostProcess
import Asr2Pass.Timestamps.TimestampOnnx
import Asr2Pass.Timestamps.Messages
import Asr2Pass.Timestamps.Spans
import Asr2Pass.Timestamps.Characters
import Asr2Pass.Timestamps.Alignment
import Asr2Pass.Timestamps.TimestampSmooth
import Asr2Pass.Library.EditDistance
import Asr2Pass.Timestamps.OptimalAlignment
import Asr2Pass.Library.Intervals
import Asr2Pass.Timestamps.EqualParts
import Asr2Pass.Timestamps.TimeOrder
import Asr2Pass.Library.Json
import Asr2Pass.Timestamps.TimestampSentence
import Asr2Pass.Timestamps.Sentences
import Asr2Pass.Timestamps.SentenceTimes
import Asr2Pass.Timestamps.Marks
import Asr2Pass.Timestamps.RowTexts
import Asr2Pass.Timestamps.LosslessText
import Asr2Pass.TwoPass.TpassInfer
import Asr2Pass.Hotwords.BackOffs
import Asr2Pass.Hotwords.Automaton
import Asr2Pass.Hotwords.Unfinished
import Asr2Pass.Hotwords.Bonus
import Asr2Pass.Hotwords.Lexicon
import Asr2Pass.Itn.Places
import Asr2Pass.Library.Quoting
import Asr2Pass.Itn.Legible
import Asr2Pass.Library.KeyedLists
import Asr2Pass.Itn.MarkedTokens
import Asr2Pass.Itn.RoundTrip
import Asr2Pass.Itn.Reordering
import Asr2Pass.Timestamps.EncodeConverter
import Asr2Pass.Timestamps.UtfLengths
import Asr2Pass.Timestamps.KeptCharacters
import Asr2Pass.Text.Splitters
import Asr2Pass.OfflineServer.Connection
import Asr2Pass.OfflineServer.DecoderThreads
import Asr2Pass.Server.LoadHotwords
import Asr2Pass.OfflineServer.OneAtATime
import Asr2Pass.Vad.DurationCap
import Asr2Pass.Frontend.StreamedFrames
import Asr2Pass.Vad.PopTermination
import Asr2Pass.Library.RingBuffer
import Asr2Pass.Vad.SlidingWindow
import Asr2Pass.Ctc.BuildContextGraph
import Asr2Pass.Ctc.Segmentation
import Asr2Pass.Ctc.HotwordPaths
import Asr2Pass.Ctc.HotwordCredit
import Asr2Pass.Ctc.HotwordOccurrences
import Asr2Pass.Library.Selection
import Asr2Pass.Ctc.BestEntries
import Asr2Pass.Hotwords.HotwordMatrix
import Asr2Pass.Hotwords.HotwordReads
import Asr2Pass.Library.Tables
import Asr2Pass.Evaluation.Calculator
import Asr2Pass.Evaluation.Accounting
import Asr2Pass.Vad.StartTimes
import Asr2Pass.Vad.InferCalls
import Asr2Pass.TwoPass.DetectorAnswers
import Asr2Pass.TwoPass.DetectedSession
import Asr2Pass.Offline.DetectedSegments
import Asr2Pass.Vad.Moves
import Asr2Pass.Vad.Detection
import Asr2Pass.TwoPass.ResampledPieces
import Asr2Pass.Vad.OfflineOnline
import Asr2Pass.Offline.OfflineResult
import Asr2Pass.Server.Sequential
import Asr2Pass.Server.Recordings
import Asr2Pass.Server.ServedSpeech
import Asr2Pass.Server.WssClient
import Asr2Pass.Online.SegmentRows
import Asr2Pass.Vad.SegmentLengths
import Asr2Pass.TwoPass.LastFrames
import Asr2Pass.Server.FirstPass
import Asr2Pass.Server.SecondPass
import Asr2Pass.Server.Replies
