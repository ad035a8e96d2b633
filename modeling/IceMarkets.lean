import IceMarkets.Indexer.BalanceLedger
import IceMarkets.Sdk.Claimable
import IceMarkets.Sdk.TwabIntegral
import IceMarkets.Sdk.Quotes
import IceMarkets.Sdk.KeccakCollisions
import IceMarkets.PegDesk.Solvency
import IceMarkets.PegDesk.Deviation
import IceMarkets.PegDesk.Wash
import IceMarkets.PegDesk.Keeper
import IceMarkets.PegDesk.Privilege
import IceMarkets.FeeRouter.Privilege
import IceMarkets.FeeRouter.Registration
import IceMarkets.Payouts.Privilege
import IceMarkets.Buyback.Bounds
import IceMarkets.Indexer.Backfill
import IceMarkets.Indexer.TradeRows
import IceMarkets.Indexer.Decoding
import IceMarkets.Indexer.Candles
import IceMarkets.Keeper.Session
import IceMarkets.Keeper.Records
import IceMarkets.Keeper.Sizing
import IceMarkets.Keeper.Migrate
import IceMarkets.Keeper.Tiling
import IceMarkets.Keeper.ExactlyOnce
import IceMarkets.Keeper.HolderSplit
import IceMarkets.PegDesk.Conversions
import IceMarkets.PegDesk.Confidence
import IceMarkets.Keeper.Sources
import IceMarkets.Indexer.SwapDecoding
