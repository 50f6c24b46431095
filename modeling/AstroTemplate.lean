import AstroTemplate.Main
import AstroTemplate.Page.Pipeline
import AstroTemplate.Proofs.DetectionGaps
import AstroTemplate.Proofs.IgnoredDirectives
import AstroTemplate.Proofs.JoinedTexts
import AstroTemplate.Proofs.LinePositions
import AstroTemplate.Proofs.LiteralBackticks
import AstroTemplate.Proofs.LiteralText
import AstroTemplate.Proofs.LoopAliases
import AstroTemplate.Proofs.Lossless
import AstroTemplate.Proofs.MaximalChains
import AstroTemplate.Proofs.OneLineReports
import AstroTemplate.Proofs.OrphanBranches
import AstroTemplate.Proofs.OutermostTest
import AstroTemplate.Proofs.PageFiles
import AstroTemplate.Proofs.Patterns
import AstroTemplate.Proofs.Positions
import AstroTemplate.Proofs.Preformatted
import AstroTemplate.Proofs.Progress
import AstroTemplate.Proofs.RepeatedNames
import AstroTemplate.Proofs.RoundTrip
import AstroTemplate.Proofs.RunEffects
import AstroTemplate.Proofs.SettingsPieces
import AstroTemplate.Proofs.Shorthands
import AstroTemplate.Proofs.ShownStyles
import AstroTemplate.Proofs.SpanText
import AstroTemplate.Proofs.Spellings
import AstroTemplate.Proofs.StageOrder
import AstroTemplate.Proofs.WhitespaceMode
import AstroTemplate.Proofs.InStep
import AstroTemplate.Proofs.LongestMatch
import AstroTemplate.Proofs.ClosingTagBytes
import AstroTemplate.Proofs.RawText
